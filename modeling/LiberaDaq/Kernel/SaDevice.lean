import LiberaDaq.Kernel.SaPipe

/-!
# The SA device

The interrupt handler of the SA device reads atoms from the FPGA into the ring `dev->buf` and
schedules the tasklet, which hands the atoms on to the pipes of the readers and is interrupted by
the handler at any of its points. A `SaSite` is the device with the tasklet and the books of what
happened so far; `SaSite.step` is one step of the handler, of the tasklet or of a reader.
-/

namespace LiberaDaq.Kernel

open LiberaDaq.Memory

variable {α : Type}

/-! ## The device -/

/-- `SA_FIFO_DEPTH`. -/
def saFifoDepth : ℕ := 32

/-- `LIBERA_SA_MAX_READERS`. -/
def saMaxReaders : ℕ := 16

/-- `struct libera_sa_device`: the pipes that are registered, and the ring between the handler and
the tasklet, with `buf_head` and `buf_tail` as indices. -/
structure SaDevice (α : Type) where
  saPipe : ℕ → Option (SaFifo α)
  buf : ℕ → α
  bufHead : ℕ
  bufTail : ℕ
  inputovr : Bool
  head_lt : bufHead < saFifoDepth
  tail_lt : bufTail < saFifoDepth

/-- `libera_sa_incr_atom`. -/
def saIncrAtom (i : ℕ) : ℕ := if i = saFifoDepth - 1 then 0 else i + 1

theorem saIncrAtom_eq {i : ℕ} (h : i < saFifoDepth) : saIncrAtom i = (i + 1) % saFifoDepth := by
  unfold saIncrAtom
  split
  · next hi => rw [hi]; rfl
  · rw [Nat.mod_eq_of_lt (by omega)]

theorem saIncrAtom_lt {i : ℕ} (h : i < saFifoDepth) : saIncrAtom i < saFifoDepth := by
  rw [saIncrAtom_eq h]
  exact Nat.mod_lt _ (by decide)

namespace SaDevice

/-- One turn of the loop of `libera_sa_handler_specific`. -/
def readAtom (d : SaDevice α) (a : α) : SaDevice α :=
  { d with buf := Function.update d.buf d.bufHead a, bufHead := saIncrAtom d.bufHead
           head_lt := saIncrAtom_lt d.head_lt }

/-- The pipe in a slot, after it was written or read. -/
def setPipe (d : SaDevice α) (i : ℕ) (q : Option (SaFifo α)) : SaDevice α :=
  { d with saPipe := Function.update d.saPipe i q }

end SaDevice

/-- The events that the tasklet sends: `LIBERA_EVENT_OVERFLOW` with `LIBERA_OVERFLOW_SA_FPGA` and
with `LIBERA_OVERFLOW_SA_DRV`, and `LIBERA_EVENT_SA`. -/
inductive SaEvent
  | overflowFpga | overflowDrv | sa
  deriving DecidableEq, Repr

/-- Where the tasklet stands: it does not run, it comes to a pipe (or past the last one), or it
compares `buf_tail` with `buf_head`. -/
inductive SaPoint
  | idle
  | pipe (n : ℕ)
  | test
  deriving DecidableEq, Repr

/-- The device with the tasklet, and what happened so far: the atoms read from the FPGA, how often
`buf_tail` was moved on, the atoms stored in and taken from each pipe, the cells of the ring whose
atom a pipe still waits for, the atoms that were lost to a pipe, and the events. -/
structure SaSite (α : Type) where
  dev : SaDevice α
  scheduled : Bool
  point : SaPoint
  fed : List α
  advanced : ℕ
  stored : ℕ → List α
  taken : ℕ → List α
  waiting : ℕ → ℕ → Bool
  lost : List (ℕ × α)
  events : List SaEvent

namespace SaSite

/-! ## The handler -/

/-- The slots of the pipes that wait for the atom of a cell. -/
def waitingFor (s : SaSite α) (c : ℕ) : List ℕ :=
  (List.range saMaxReaders).filter fun i => (s.dev.saPipe i).isSome && s.waiting i c

/-- The handler reads an atom. What the pipes still wait for in its cell is lost to them. -/
def readAtom (s : SaSite α) (a : α) : SaSite α :=
  { s with
    dev := s.dev.readAtom a
    fed := s.fed ++ [a]
    lost := s.lost ++ (s.waitingFor s.dev.bufHead).map fun i => (i, s.dev.buf s.dev.bufHead)
    waiting := fun i c => if c = s.dev.bufHead then (s.dev.saPipe i).isSome else s.waiting i c }

/-- `libera_sa_handler`, with the atoms that it reads and whether it saw an overrun of the FPGA. -/
def interrupt (s : SaSite α) (as : List α) (ovr : Bool) : SaSite α :=
  { as.foldl readAtom { s with dev := { s.dev with inputovr := s.dev.inputovr || ovr } } with
    scheduled := true }

/-! ## The tasklet -/

/-- The tasklet begins: the check for an overrun of the FPGA. -/
def start (s : SaSite α) : SaSite α :=
  { s with
    scheduled := false
    point := .pipe 0
    dev := { s.dev with inputovr := false }
    events := if s.dev.inputovr then s.events ++ [.overflowFpga] else s.events }

/-- The write of the atom at `buf_tail` to the pipe in a slot. -/
def write (s : SaSite α) (i : ℕ) (q : SaFifo α) : SaSite α :=
  let a := s.dev.buf s.dev.bufTail
  let (ret, q') := q.pipeWrite (fun _ => a) saAtomSize
  { s with
    point := .pipe (i + 1)
    dev := s.dev.setPipe i (some q')
    events := if ret = -SaFifo.eFault then s.events ++ [.overflowDrv] else s.events
    stored := if 0 < ret then Function.update s.stored i (s.stored i ++ [a]) else s.stored
    waiting := fun j c => if j = i ∧ c = s.dev.bufTail then false else s.waiting j c
    lost := if ret ≤ 0 ∧ s.waiting i s.dev.bufTail = true then s.lost ++ [(i, a)] else s.lost }

/-- The body of the loop over the pipes. -/
def dispatch (s : SaSite α) (i : ℕ) : SaSite α :=
  match s.dev.saPipe i with
  | none => { s with point := .pipe (i + 1) }
  | some q => s.write i q

/-- `buf_tail` is moved on. -/
def advance (s : SaSite α) : SaSite α :=
  { s with
    point := .test
    dev :=
      { s.dev with bufTail := saIncrAtom s.dev.bufTail, tail_lt := saIncrAtom_lt s.dev.tail_lt }
    advanced := s.advanced + 1
    events := s.events ++ [.sa] }

/-- The condition of the loop. -/
def test (s : SaSite α) : SaSite α :=
  { s with point := if s.dev.bufTail ≠ s.dev.bufHead then .pipe 0 else .idle }

/-- `libera_sa_do_tasklet`, from one point to the next. -/
def tasklet (s : SaSite α) : Option (SaSite α) :=
  match s.point with
  | .idle => if s.scheduled then some s.start else none
  | .pipe n => some (if n < saMaxReaders then s.dispatch n else s.advance)
  | .test => some s.test

/-! ## The readers -/

/-- A reader opens the device and gets a slot that is free; its pipe is empty. -/
def register (s : SaSite α) (i : ℕ) (data : ℕ → α) : Option (SaSite α) :=
  if i < saMaxReaders ∧ (s.dev.saPipe i).isNone then
    some { s with
      dev := s.dev.setPipe i (some ⟨data, 0, 0, zero_lt_saLog, zero_lt_saLog⟩)
      stored := Function.update s.stored i []
      taken := Function.update s.taken i []
      waiting := Function.update s.waiting i fun _ => false }
  else none

/-- A reader closes the device. -/
def unregister (s : SaSite α) (i : ℕ) : SaSite α := { s with dev := s.dev.setPipe i none }

/-- A reader takes an atom off its pipe, if there is one. -/
def read (s : SaSite α) (i : ℕ) : Option (SaSite α) :=
  match s.dev.saPipe i with
  | none => none
  | some q =>
    match q.getFrom with
    | (none, _) => none
    | (some a, q') => some { s with
        dev := s.dev.setPipe i (some q')
        taken := Function.update s.taken i (s.taken i ++ [a]) }

/-! ## Steps and runs -/

end SaSite

/-- The steps at the device: an interrupt, which brings one atom at least, a step of the tasklet,
and the steps of the readers. -/
inductive SaAction (α : Type)
  | interrupt (a : α) (rest : List α) (ovr : Bool)
  | tasklet
  | register (i : ℕ) (data : ℕ → α)
  | unregister (i : ℕ)
  | read (i : ℕ)

/-- One step at the device. -/
def SaSite.step : SaAction α → SaSite α → Option (SaSite α)
  | .interrupt a rest ovr, s => some (s.interrupt (a :: rest) ovr)
  | .tasklet, s => s.tasklet
  | .register i data, s => s.register i data
  | .unregister i, s => some (s.unregister i)
  | .read i, s => s.read i

/-- The runs of the device, with the states and the steps taken in them. -/
inductive SaRun : SaSite α → List (SaSite α × SaAction α) → SaSite α → Prop
  | nil (s : SaSite α) : SaRun s [] s
  | snoc {s t u : SaSite α} {tr : List (SaSite α × SaAction α)} {a : SaAction α} :
      SaRun s tr t → t.step a = some u → SaRun s (tr ++ [(t, a)]) u

theorem SaRun.append {s t u : SaSite α} {tr tr' : List (SaSite α × SaAction α)} (h : SaRun s tr t)
    (h' : SaRun t tr' u) : SaRun s (tr ++ tr') u := by
  induction h' with
  | nil => rwa [List.append_nil]
  | snoc _ hstep ih =>
    rw [← List.append_assoc]
    exact ih.snoc hstep

/-- The run of a list of steps; `none` when one of them cannot be taken. -/
def SaSite.steps : List (SaAction α) → SaSite α → Option (List (SaSite α × SaAction α) × SaSite α)
  | [], s => some ([], s)
  | a :: as, s => (s.step a).bind fun t => (t.steps as).map fun x => ((s, a) :: x.1, x.2)

theorem SaRun.of_steps {as : List (SaAction α)} {s t : SaSite α}
    {tr : List (SaSite α × SaAction α)} (h : s.steps as = some (tr, t)) : SaRun s tr t := by
  induction as generalizing s tr with
  | nil =>
    obtain ⟨rfl, rfl⟩ := Prod.mk.inj (Option.some.inj h)
    exact .nil s
  | cons a as ih =>
    obtain ⟨u, hu, h⟩ := Option.bind_eq_some_iff.1 h
    obtain ⟨x, hx, h⟩ := Option.map_eq_some_iff.1 h
    obtain ⟨rfl, rfl⟩ := Prod.mk.inj h
    exact ((SaRun.nil s).snoc hu).append (ih hx)

/-- The step is one of the tasklet. -/
def SaAction.isTasklet : SaAction α → Bool
  | .tasklet => true
  | _ => false

/-- The tasklet writes to the pipe in a slot. -/
def Writes (s : SaSite α) (a : SaAction α) (i : ℕ) (q : SaFifo α) : Prop :=
  s.dev.saPipe i = some q ∧ a.isTasklet = true ∧ s.point = .pipe i ∧ i < saMaxReaders

instance (s : SaSite α) (a : SaAction α) (i : ℕ) (P : SaFifo α → Prop) [DecidablePred P] :
    Decidable (∀ q, Writes s a i q → P q) :=
  decidable_of_iff (∀ q ∈ s.dev.saPipe i,
    a.isTasklet = true ∧ s.point = .pipe i ∧ i < saMaxReaders → P q)
    ⟨fun h q hq => h q hq.1 hq.2, fun h q hq hw => h q ⟨hq, hw⟩⟩

/-- The pipe of a reader that just opened the device. -/
def emptyPipe : SaFifo ℕ := ⟨fun _ => 0, 0, 0, zero_lt_saLog, zero_lt_saLog⟩

/-- A device whose tasklet does not run, with one reader, in the slot `0`. -/
def SaSite.withReader (q : SaFifo ℕ) : SaSite ℕ where
  dev :=
    { saPipe := fun i => if i = 0 then some q else none
      buf := fun _ => 0, bufHead := 0, bufTail := 0, inputovr := false
      head_lt := by decide, tail_lt := by decide }
  scheduled := false
  point := .idle
  fed := []
  advanced := 0
  stored := fun _ => []
  taken := fun _ => []
  waiting := fun _ _ => false
  lost := []
  events := []

end LiberaDaq.Kernel
