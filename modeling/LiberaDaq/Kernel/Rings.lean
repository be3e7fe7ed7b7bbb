import LiberaDaq.Kernel.SaPipe
import LiberaDaq.Memory.Queue
import LiberaDaq.Cspi.Codes

/-!
# The rings of the driver

The interrupt handlers and the readers exchange time stamps, events and SA atoms through rings: the
FIFOs of the triggers and of the event device, of `TRIG_LOG` cells (`libera_event.h`), and the pipes
of the SA readers (`SaPipe`). A reader gets a reference to a cell of the ring.

Each of them refines a queue with room for all of its cells but one (`rings_refine`).
-/

namespace LiberaDaq.Kernel

open LiberaDaq.Memory LiberaDaq.Cspi

variable {α : Type}

/-- `TRIG_LOG`. -/
def trigLog : ℕ := 4096

/-- `TRIG_LOG_MASK`. -/
def trigLogMask : ℕ := trigLog - 1

theorem zero_lt_trigLog : 0 < trigLog := by decide

theorem and_trigLogMask (n : ℕ) : n &&& trigLogMask = n % trigLog :=
  Nat.and_two_pow_sub_one_eq_mod n 12

theorem and_trigLogMask_lt (n : ℕ) : n &&& trigLogMask < trigLog := by
  rw [and_trigLogMask]
  exact Nat.mod_lt n zero_lt_trigLog

/-! ## The rings of `TRIG_LOG` cells -/

/-- What `struct libera_fifo` and `struct libera_event_fifo` have in common. -/
structure TrigRing (α : Type) where
  data : ℕ → α
  put : ℕ
  get : ℕ
  put_lt : put < trigLog
  get_lt : get < trigLog

namespace TrigRing

def flush (q : TrigRing α) : TrigRing α :=
  { q with put := 0, get := 0, put_lt := zero_lt_trigLog, get_lt := zero_lt_trigLog }

def len (q : TrigRing α) : ℕ := (q.put + trigLog - q.get) &&& trigLogMask

def notEmpty (q : TrigRing α) : Bool := q.put ≠ q.get

def empty (q : TrigRing α) : Bool := q.put = q.get

def putTo (q : TrigRing α) (a : α) : ℤ × TrigRing α :=
  let index := (q.put + 1) &&& trigLogMask
  if index = q.get then (-1, q)
  else (0, { q with data := Function.update q.data index a, put := index
                    put_lt := and_trigLogMask_lt _ })

/-- The reference is the index of the cell. -/
def getFrom (q : TrigRing α) : Option ℕ × TrigRing α :=
  if q.put = q.get then (none, q)
  else
    let index := (q.get + 1) &&& trigLogMask
    (some index, { q with get := index, get_lt := and_trigLogMask_lt _ })

/-- The ring as one that counts modulo its size. -/
def toRing (q : TrigRing α) : Ring trigLog α := ⟨q.data, q.put, q.get, q.put_lt, q.get_lt⟩

theorem store_toRing (q : TrigRing α) (a : α) :
    q.toRing.store a = (decide ((q.putTo a).1 = 0), (q.putTo a).2.toRing) := by
  by_cases h : (q.put + 1) % trigLog = q.get
  · have hput : q.putTo a = (-1, q) := if_pos (by rwa [and_trigLogMask])
    rw [hput]
    exact if_pos h
  · have hput : q.putTo a = (0, _) := if_neg (by rwa [and_trigLogMask])
    rw [hput]
    refine (if_neg h).trans ?_
    simp only [toRing, and_trigLogMask]
    rfl

theorem take_toRing (q : TrigRing α) :
    q.toRing.take = (q.getFrom.1, q.getFrom.2.toRing) := by
  by_cases h : q.put = q.get
  · have hget : q.getFrom = (none, q) := if_pos h
    rw [hget]
    exact if_pos h
  · have hget : q.getFrom = (some _, _) := if_neg h
    rw [hget]
    refine (if_neg h).trans ?_
    simp only [toRing, and_trigLogMask]

end TrigRing

/-! ## The FIFO of a trigger -/

/-- `struct libera_fifo`. -/
abbrev LiberaFifo := TrigRing (BitVec 64)

def flushFIFO : LiberaFifo → LiberaFifo := TrigRing.flush

def lenFIFO : LiberaFifo → ℕ := TrigRing.len

def notEmptyFIFO : LiberaFifo → Bool := TrigRing.notEmpty

def emptyFIFO : LiberaFifo → Bool := TrigRing.empty

def putToFIFO : LiberaFifo → BitVec 64 → ℤ × LiberaFifo := TrigRing.putTo

def getFromFIFO : LiberaFifo → Option ℕ × LiberaFifo := TrigRing.getFrom

/-! ## The FIFO of the event device -/

/-- `libera_event_t`. -/
structure LiberaEvent where
  id : Word
  param : Word
  deriving DecidableEq, Repr

/-- `struct libera_event_fifo`. -/
abbrev LiberaEventFifo := TrigRing LiberaEvent

def flushEventFIFO : LiberaEventFifo → LiberaEventFifo := TrigRing.flush

def lenEventFIFO : LiberaEventFifo → ℕ := TrigRing.len

def notEmptyEventFIFO : LiberaEventFifo → Bool := TrigRing.notEmpty

def emptyEventFIFO : LiberaEventFifo → Bool := TrigRing.empty

def putToEventFIFO : LiberaEventFifo → LiberaEvent → ℤ × LiberaEventFifo := TrigRing.putTo

def getFromEventFIFO : LiberaEventFifo → Option ℕ × LiberaEventFifo := TrigRing.getFrom

/-! ## Refinement -/

/-- A ring of `TRIG_LOG` cells with the operations of a queue. -/
def TrigRing.queue (α : Type) : QueueImpl α (TrigRing α) ℕ where
  put q a := ((q.putTo a).1 = 0, (q.putTo a).2)
  get := TrigRing.getFrom
  flush := TrigRing.flush
  len := TrigRing.len
  cell := TrigRing.data

theorem TrigRing.queue_refines :
    (TrigRing.queue α).Refines (trigLog - 1) (fun q => q.toRing.items) TrigRing.get :=
  (Ring.refines trigLog α).comap TrigRing.toRing TrigRing.store_toRing TrigRing.take_toRing
    (fun _ => rfl) (fun _ => (and_trigLogMask _).symm) fun _ => rfl

/-! ## The items of a ring -/

namespace TrigRing

/-- The items that the ring holds, the next one to be taken off first. -/
def items (q : TrigRing α) : List α := q.toRing.items

/-- The item that a get refers to. -/
def next (q : TrigRing α) : Option α := q.getFrom.1.map q.getFrom.2.data

variable {q : TrigRing α} {a : α}

theorem items_putTo : (q.putTo a).2.items =
    if q.items.length < trigLog - 1 then q.items ++ [a] else q.items := by
  have hstep := congrArg Prod.snd (queue_refines.step q (.put a))
  dsimp only at hstep
  rw [queueStep, apply_ite Prod.snd] at hstep
  exact hstep

theorem next_eq : q.next = q.items.head? := by
  have hstep := congrArg Prod.fst (queue_refines.step q .get)
  change QueueAns.get q.next = (queueStep _ q.items .get).1 at hstep
  cases hitems : q.items with
  | nil =>
    rw [hitems] at hstep
    exact QueueAns.get.inj hstep
  | cons a rest =>
    rw [hitems] at hstep
    exact QueueAns.get.inj hstep

theorem items_getFrom : q.getFrom.2.items = q.items.tail := by
  have hstep := congrArg Prod.snd (queue_refines.step q .get)
  change q.getFrom.2.items = (queueStep _ q.items .get).2 at hstep
  rw [hstep]
  cases q.items <;> rfl

theorem empty_iff : q.empty = true ↔ q.items = [] := by
  rw [← List.length_eq_zero_iff, items, Ring.length_items,
    ringDist_eq_zero_iff q.toRing.get_lt q.toRing.put_lt]
  exact decide_eq_true_iff

end TrigRing

/-! ## The driver's rings as queues -/

/-- The FIFO of a trigger with the operations of a queue. -/
def triggerQueue : QueueImpl (BitVec 64) LiberaFifo ℕ where
  put q stamp := ((putToFIFO q stamp).1 = 0, (putToFIFO q stamp).2)
  get := getFromFIFO
  flush := flushFIFO
  len := lenFIFO
  cell := TrigRing.data

/-- The FIFO of the event device with the operations of a queue. -/
def eventQueue : QueueImpl LiberaEvent LiberaEventFifo ℕ where
  put q e := ((putToEventFIFO q e).1 = 0, (putToEventFIFO q e).2)
  get := getFromEventFIFO
  flush := flushEventFIFO
  len := lenEventFIFO
  cell := TrigRing.data

/-- The pipe of an SA reader as a ring that counts modulo its size. -/
def SaFifo.toRing (q : SaFifo α) : Ring saLog α := ⟨q.data, q.put, q.get, q.put_lt, q.get_lt⟩

theorem SaFifo.store_toRing (q : SaFifo α) (a : α) :
    q.toRing.store a = (decide ((q.putTo a).1 = 0), (q.putTo a).2.toRing) := by
  by_cases h : (q.put + 1) % saLog = q.get
  · have hput : q.putTo a = (-1, q) := if_pos (by rwa [and_saLogMask])
    rw [hput]
    exact if_pos h
  · have hput : q.putTo a = (0, _) := if_neg (by rwa [and_saLogMask])
    rw [hput]
    refine (if_neg h).trans ?_
    simp only [toRing, and_saLogMask]
    rfl

theorem SaFifo.take_toRing (q : SaFifo α) :
    q.toRing.take = (q.getFrom.1.map fun _ => q.getFrom.2.get, q.getFrom.2.toRing) := by
  by_cases h : q.put = q.get
  · have hget : q.getFrom = (none, q) := if_pos h
    rw [hget]
    exact if_pos h
  · have hget : q.getFrom = (some _, _) := if_neg h
    rw [hget]
    refine (if_neg h).trans ?_
    simp only [toRing, and_saLogMask, Option.map_some]

/-- The pipe of an SA reader with the operations of a queue. The reference of `getFrom_saFIFO` is to
the cell `get`. -/
def saQueue (α : Type) : QueueImpl α (SaFifo α) ℕ where
  put q a := ((q.putTo a).1 = 0, (q.putTo a).2)
  get q := (q.getFrom.1.map fun _ => q.getFrom.2.get, q.getFrom.2)
  flush := SaFifo.flush
  len := SaFifo.len
  cell := SaFifo.data

theorem saQueue_refines : (saQueue α).Refines (saLog - 1) (fun q => q.toRing.items) SaFifo.get :=
  (Ring.refines saLog α).comap SaFifo.toRing SaFifo.store_toRing SaFifo.take_toRing
    (fun _ => rfl) (fun _ => (and_saLogMask _).symm) fun _ => rfl

/-- What a component with the operations of a queue does in all its runs, from all states: it gives
the answers of a queue with room for `cap` items, reports how many there are, and leaves a cell that
it has handed out alone until the next get or flush. -/
structure BehavesAsQueue {σ : Type} (q : QueueImpl α σ ℕ) (cap : ℕ) (items : σ → List α) :
    Prop where
  runs : ∀ ops s, ((runOps q.step s ops).1, items (runOps q.step s ops).2) =
    runOps (queueStep cap) (items s) ops
  flushed : ∀ s, items (q.flush s) = []
  len : ∀ s, q.len s = (items s).length
  cell : ∀ s r s' ops, q.get s = (some r, s') → (∀ op ∈ ops, ∃ a, op = QueueOp.put a) →
    q.cell (runOps q.step s' ops).2 r = q.cell s' r

theorem BehavesAsQueue.of_refines {σ : Type} {q : QueueImpl α σ ℕ} {cap : ℕ} {items : σ → List α}
    {last : σ → ℕ} (h : q.Refines cap items last) : BehavesAsQueue q cap items where
  runs := h.runs
  flushed s := congrArg Prod.snd (h.step s .flush)
  len := h.len
  cell _ _ _ _ hget hops := h.cell_kept hget hops

/-- **The rings of the driver refine bounded queues**, with room for all of their cells but one. -/
theorem rings_refine : BehavesAsQueue triggerQueue (trigLog - 1) (fun q => q.toRing.items) ∧
    BehavesAsQueue eventQueue (trigLog - 1) (fun q => q.toRing.items) ∧
    BehavesAsQueue (saQueue α) (saLog - 1) (fun q => q.toRing.items) :=
  ⟨.of_refines TrigRing.queue_refines, .of_refines TrigRing.queue_refines,
    .of_refines saQueue_refines⟩

/-- Items come out in the order in which they went in. -/
example : (runOps triggerQueue.step ⟨fun _ => 0, trigLog - 1, trigLog - 1, by decide, by decide⟩
    [.put 7, .put 8, .get, .get, .get]).1 =
      [.put true, .put true, .get (some 7), .get (some 8), .get none] := by
  decide

end LiberaDaq.Kernel
