import LiberaDaq.Kernel.Rings
import LiberaDaq.Kernel.Calls
import LiberaDaq.Memory.Drain

/-!
# Reading from the event and the SA device

`libera_event_read` hands out the events that wait in the FIFO of the device, `libera_sa_read` the
atoms in the pipe of the file. Both take the items off the queue one at a time and copy each to the
process. A copy that fails ends the request with `-EFAULT`, when the item and those before it are
gone.

A read returns the number of bytes of the items that it removed, and no item is lost, if and only if
none of its copies fails (`event_read_exact_iff`, `sa_read_exact_iff`).
-/

namespace LiberaDaq.Kernel

open LiberaDaq.Memory

variable {α σ : Type}

/-! ## The requests -/

/-- What happens during a read and is not up to the driver: a signal interrupts the wait for the
mutex, the file does not block or its position is not the one of the request, what comes while the
request sleeps and whether a signal wakes it, what comes while the items are counted, and the
copies. -/
structure ReadEvents (α : Type) where
  interrupted : Bool
  nonblock : Bool
  seeked : Bool
  turns : List (List α × Bool)
  counted : List α
  copies : ℕ → CopyTurn α

/-- The operations on the queue of a device, and the size of an item. -/
structure QueueFile (α σ : Type) where
  queue : QueueImpl α σ ℕ
  empty : σ → Bool
  size : ℕ

namespace QueueFile

variable (q : QueueFile α σ)

/-- The loop that waits for an item, with the mutex released while it sleeps. It is `none` when the
request does not return. -/
def sleepOn : List (List α × Bool) → Reading σ α → Option (ℤ × Reading σ α)
  | [], _ => none
  | (as, signal) :: turns, x =>
    let x := q.queue.arrive x as
    if !q.empty x.queue then some (0, x)
    else if signal then some (-eRestartSys, x)
    else sleepOn turns x

/-- The number of items that are to be taken off. The length of the queue is read twice. -/
def itemCount (e : ReadEvents α) (count : ℕ) (x : Reading σ α) : ℕ :=
  if count / q.size < q.queue.len x.queue then count / q.size
  else q.queue.len (q.queue.arrive x e.counted).queue

/-- The last part of a read, with what it returns. -/
def takeItems (e : ReadEvents α) (count : ℕ) (x : Reading σ α) : ℤ × Reading σ α :=
  let n := q.itemCount e count x
  let y := q.queue.copyItems e.copies 0 n (q.queue.arrive x e.counted)
  (if y.1 then (n * q.size : ℕ) else -eFault, y.2)

/-- A read, given the part of it that comes before: a result, or nothing yet. -/
def finish (e : ReadEvents α) (count : ℕ) (p : Option ℤ × Reading σ α) : ℤ × Reading σ α :=
  match p.1 with
  | some ret => (ret, p.2)
  | none => q.takeItems e count p.2

end QueueFile

/-- The FIFO of the events. -/
def eventFile : QueueFile LiberaEvent LiberaEventFifo := ⟨eventQueue, emptyEventFIFO, eventSize⟩

/-- `empty_saFIFO`. -/
def emptySaFIFO (q : SaFifo α) : Bool := q.put = q.get

/-- The pipe of a file. -/
def saFile (α : Type) : QueueFile α (SaFifo α) := ⟨saQueue α, emptySaFIFO, saAtomSize⟩

/-- `libera_event_read` up to the items. -/
def eventReadReady (e : ReadEvents LiberaEvent) (count : ℕ) (fifo : LiberaEventFifo) :
    Option (Option ℤ × Reading LiberaEventFifo LiberaEvent) :=
  let x : Reading LiberaEventFifo LiberaEvent := ⟨fifo, [], []⟩
  if e.interrupted then some (some (-eRestartSys), x)
  else if e.nonblock && emptyEventFIFO x.queue then some (some (-eAgain), x)
  else if count = 0 then some (some 0, x)
  else if count % eventSize ≠ 0 then some (some (-eInval), x)
  else if emptyEventFIFO x.queue then
    (eventFile.sleepOn e.turns x).map fun y => (if y.1 ≠ 0 then some y.1 else none, y.2)
  else some (none, x)

/-- `libera_event_read`. -/
def QueueFile.liberaEventRead (e : ReadEvents LiberaEvent) (count : ℕ) (fifo : LiberaEventFifo) :
    Option (ℤ × Reading LiberaEventFifo LiberaEvent) :=
  (eventReadReady e count fifo).map (eventFile.finish e count)

/-- `libera_sa_read` up to the items. -/
def saReadReady (e : ReadEvents α) (count : ℕ) (pipe : SaFifo α) :
    Option (Option ℤ × Reading (SaFifo α) α) :=
  let x : Reading (SaFifo α) α := ⟨pipe, [], []⟩
  if e.seeked then some (some (-eSPipe), x)
  else if count = 0 then some (some 0, x)
  else if e.interrupted then some (some (-eRestartSys), x)
  else if count % saAtomSize ≠ 0 then some (some (-eInval), x)
  else if emptySaFIFO x.queue then
    if e.nonblock then some (some (-eAgain), x)
    else ((saFile α).sleepOn e.turns x).map fun y => (if y.1 ≠ 0 then some y.1 else none, y.2)
  else some (none, x)

/-- `libera_sa_read`. -/
def QueueFile.liberaSaRead (e : ReadEvents α) (count : ℕ) (pipe : SaFifo α) :
    Option (ℤ × Reading (SaFifo α) α) :=
  (saReadReady e count pipe).map ((saFile α).finish e count)

/-! ## Exact reads -/

/-- What a read must do, for the items that the queue had before: if it fails, nothing is off the
queue; if it returns a number of bytes, the items of as many bytes were copied in order and are off
the queue, and no others. Items that came in the meantime are behind those that were there. -/
structure ReadExact (items : σ → List α) (size : ℕ) (before : List α) (r : ℤ × Reading σ α) :
    Prop where
  failed : r.1 < 0 → items r.2.queue = before ++ r.2.stored
  served : 0 ≤ r.1 → ∃ m : ℕ, r.1 = (m * size : ℕ) ∧ m ≤ (before ++ r.2.stored).length ∧
    r.2.copied = (before ++ r.2.stored).take m ∧ items r.2.queue = (before ++ r.2.stored).drop m

/-- Nothing was taken off, and nothing was copied. -/
structure Untouched (items : σ → List α) (before : List α) (x : Reading σ α) : Prop where
  kept : QueueImpl.Kept items before [] x
  copied : x.copied = []

/-- A read that returns before it comes to the items. -/
theorem Untouched.exact {items : σ → List α} {before : List α} {x : Reading σ α} {ret : ℤ}
    (hx : Untouched items before x) (size : ℕ) (hret : ret ≤ 0) :
    ReadExact items size before (ret, x) where
  failed _ := hx.kept.symm
  served hnonneg := by
    refine ⟨0, ?_, Nat.zero_le _, hx.copied, hx.kept.symm⟩
    rw [Nat.zero_mul]
    exact le_antisymm hret hnonneg

namespace QueueFile

variable {q : QueueFile α σ} {cap : ℕ} {items : σ → List α} {last : σ → ℕ} {before : List α}
  {x : Reading σ α} {e : ReadEvents α} {count : ℕ}

theorem untouched_start (items : σ → List α) (s : σ) :
    Untouched items (items s) (⟨s, [], []⟩ : Reading σ α) :=
  ⟨List.append_nil _, rfl⟩

theorem Untouched.arrive (h : q.queue.Refines cap items last) (hx : Untouched items before x)
    (as : List α) : Untouched items before (q.queue.arrive x as) :=
  ⟨(QueueImpl.kept_arrive h hx.kept as).1, by rw [QueueImpl.copied_arrive, hx.copied]⟩

/-- The wait ends with an item or with a signal. -/
theorem sleepOn_spec (h : q.queue.Refines cap items last) {turns : List (List α × Bool)}
    (hx : Untouched items before x) {r : ℤ × Reading σ α} (hr : q.sleepOn turns x = some r) :
    Untouched items before r.2 ∧ r.1 ≤ 0 := by
  induction turns generalizing x with
  | nil => cases hr
  | cons t turns ih =>
    have harrived := Untouched.arrive h hx t.1
    rw [sleepOn] at hr
    split_ifs at hr
    · obtain rfl := Option.some.inj hr
      exact ⟨harrived, le_refl 0⟩
    · obtain rfl := Option.some.inj hr
      have hsignal : -eRestartSys ≤ 0 := by decide
      exact ⟨harrived, hsignal⟩
    · exact ih harrived hr

/-- No more items are to be taken off than there are. -/
theorem itemCount_le (h : q.queue.Refines cap items last) (hx : Untouched items before x)
    (e : ReadEvents α) (count : ℕ) :
    q.itemCount e count x ≤ (items (q.queue.arrive x e.counted).queue).length := by
  rw [itemCount]
  split_ifs with hlt
  · rw [h.len] at hlt
    exact hlt.le.trans (QueueImpl.kept_arrive h hx.kept e.counted).2
  · rw [h.len]

/-- **The items of a read.** The read is exact if and only if all of its copies succeed. -/
theorem takeItems_exact_iff (h : q.queue.Refines cap items last) (hx : Untouched items before x) :
    ReadExact items q.size before (q.takeItems e count x) ↔
      ∀ i < q.itemCount e count x, (e.copies i).copied = true := by
  have hcount := itemCount_le h hx e count
  obtain ⟨hkept, hcopied⟩ := Untouched.arrive h hx e.counted
  constructor
  · intro hexact
    by_contra hnot
    have hfault : ∃ j, 0 ≤ j ∧ j < 0 + q.itemCount e count x ∧ (e.copies j).copied = false := by
      obtain ⟨j, hnot⟩ := not_forall.1 hnot
      obtain ⟨hj, hfail⟩ := Classical.not_imp.1 hnot
      exact ⟨j, Nat.zero_le j, by omega, by simpa using hfail⟩
    obtain ⟨more, y, hrun, hmore, hkept'⟩ := QueueImpl.copyItems_fault h hkept hcount hfault
    have hread : q.takeItems e count x = (-eFault, y) := by
      rw [takeItems, hrun, if_neg nofun]
    rw [hread] at hexact
    have hfailed : -eFault < 0 := by decide
    have hsame := hexact.failed hfailed
    rw [QueueImpl.Kept, ← hsame, List.nil_append] at hkept'
    exact hmore (List.append_left_eq_self.1 hkept'.symm)
  · intro hall
    obtain ⟨more, y, hrun, hlength, hkept', hcopied'⟩ :=
      QueueImpl.copyItems_all h hkept hcount fun j _ hj => hall j (by rwa [Nat.zero_add] at hj)
    have hread : q.takeItems e count x = (((q.itemCount e count x * q.size : ℕ) : ℤ), y) := by
      rw [takeItems, hrun, if_pos rfl]
    rw [hread]
    rw [hcopied, List.nil_append] at hcopied'
    rw [QueueImpl.Kept, List.nil_append] at hkept'
    refine ⟨fun hneg => absurd hneg (not_lt.2 (Int.natCast_nonneg _)),
      fun _ => ⟨_, rfl, ?_, ?_, ?_⟩⟩
    · rw [hkept', List.length_append, hlength]
      exact Nat.le_add_right ..
    · rw [hkept', hcopied', ← hlength, List.take_left]
    · rw [hkept', ← hlength, List.drop_left]

/-- A read, after the part of it that comes before the items. -/
theorem finish_exact_iff (h : q.queue.Refines cap items last) {p : Option ℤ × Reading σ α}
    (hp : Untouched items before p.2) (hret : ∀ ret ∈ p.1, ret ≤ 0) (e : ReadEvents α) (count : ℕ) :
    ReadExact items q.size before (q.finish e count p) ↔
      (p.1 = none → ∀ i < q.itemCount e count p.2, (e.copies i).copied = true) := by
  obtain ⟨o, x⟩ := p
  cases o with
  | some ret => exact iff_of_true (Untouched.exact hp q.size (hret ret rfl)) nofun
  | none =>
    rw [finish, takeItems_exact_iff h hp]
    exact ⟨fun hall _ => hall, fun hall => hall rfl⟩

end QueueFile

/-! ## The two devices -/

/-- The events that wait in the FIFO, the next one first. -/
def queuedEvents (fifo : LiberaEventFifo) : List LiberaEvent := fifo.items

/-- The atoms that wait in a pipe, the next one first. -/
def queuedAtoms (pipe : SaFifo α) : List α := pipe.toRing.items

theorem eventFile_refines : eventFile.queue.Refines (trigLog - 1) queuedEvents TrigRing.get :=
  TrigRing.queue_refines

theorem saFile_refines : (saFile α).queue.Refines (saLog - 1) queuedAtoms SaFifo.get :=
  saQueue_refines

/-- What comes before the items. -/
theorem eventReadReady_spec {e : ReadEvents LiberaEvent} {count : ℕ} {fifo : LiberaEventFifo}
    {p : Option ℤ × Reading LiberaEventFifo LiberaEvent}
    (hp : eventReadReady e count fifo = some p) :
    Untouched queuedEvents (queuedEvents fifo) p.2 ∧ ∀ ret ∈ p.1, ret ≤ 0 := by
  have hstart := QueueFile.untouched_start queuedEvents fifo
  have hcodes : -eRestartSys ≤ 0 ∧ -eAgain ≤ 0 ∧ -eInval ≤ 0 := by decide
  rw [eventReadReady] at hp
  split_ifs at hp
  · obtain rfl := Option.some.inj hp
    exact ⟨hstart, by rintro _ ⟨⟩; exact hcodes.1⟩
  · obtain rfl := Option.some.inj hp
    exact ⟨hstart, by rintro _ ⟨⟩; exact hcodes.2.1⟩
  · obtain rfl := Option.some.inj hp
    exact ⟨hstart, by rintro _ ⟨⟩; exact le_refl 0⟩
  · obtain rfl := Option.some.inj hp
    exact ⟨hstart, by rintro _ ⟨⟩; exact hcodes.2.2⟩
  · obtain ⟨y, hy, rfl⟩ := Option.map_eq_some_iff.1 hp
    obtain ⟨huntouched, hret⟩ := QueueFile.sleepOn_spec eventFile_refines hstart hy
    refine ⟨huntouched, fun ret hmem => ?_⟩
    dsimp only at hmem
    split_ifs at hmem
    · exact Option.some.inj hmem ▸ hret
    · cases hmem
  · obtain rfl := Option.some.inj hp
    exact ⟨hstart, nofun⟩

theorem saReadReady_spec {e : ReadEvents α} {count : ℕ} {pipe : SaFifo α}
    {p : Option ℤ × Reading (SaFifo α) α} (hp : saReadReady e count pipe = some p) :
    Untouched queuedAtoms (queuedAtoms pipe) p.2 ∧ ∀ ret ∈ p.1, ret ≤ 0 := by
  have hstart := QueueFile.untouched_start queuedAtoms pipe
  have hcodes : -eSPipe ≤ 0 ∧ -eRestartSys ≤ 0 ∧ -eInval ≤ 0 ∧ -eAgain ≤ 0 := by decide
  rw [saReadReady] at hp
  split_ifs at hp
  · obtain rfl := Option.some.inj hp
    exact ⟨hstart, by rintro _ ⟨⟩; exact hcodes.1⟩
  · obtain rfl := Option.some.inj hp
    exact ⟨hstart, by rintro _ ⟨⟩; exact le_refl 0⟩
  · obtain rfl := Option.some.inj hp
    exact ⟨hstart, by rintro _ ⟨⟩; exact hcodes.2.1⟩
  · obtain rfl := Option.some.inj hp
    exact ⟨hstart, by rintro _ ⟨⟩; exact hcodes.2.2.1⟩
  · obtain rfl := Option.some.inj hp
    exact ⟨hstart, by rintro _ ⟨⟩; exact hcodes.2.2.2⟩
  · obtain ⟨y, hy, rfl⟩ := Option.map_eq_some_iff.1 hp
    obtain ⟨huntouched, hret⟩ := QueueFile.sleepOn_spec saFile_refines hstart hy
    refine ⟨huntouched, fun ret hmem => ?_⟩
    dsimp only at hmem
    split_ifs at hmem
    · exact Option.some.inj hmem ▸ hret
    · cases hmem
  · obtain rfl := Option.some.inj hp
    exact ⟨hstart, nofun⟩

/-- No copy of the read fails, if it comes to the items. -/
def EventCopied (e : ReadEvents LiberaEvent) (count : ℕ) (fifo : LiberaEventFifo) : Prop :=
  ∀ p ∈ eventReadReady e count fifo, p.1 = none →
    ∀ i < eventFile.itemCount e count p.2, (e.copies i).copied = true

/-- No copy of the read fails, if it comes to the items. -/
def SaCopied (e : ReadEvents α) (count : ℕ) (pipe : SaFifo α) : Prop :=
  ∀ p ∈ saReadReady e count pipe, p.1 = none →
    ∀ i < (saFile α).itemCount e count p.2, (e.copies i).copied = true

theorem eventRead_iff {e : ReadEvents LiberaEvent} {count : ℕ} {fifo : LiberaEventFifo} :
    (∀ r ∈ QueueFile.liberaEventRead e count fifo,
      ReadExact queuedEvents eventSize (queuedEvents fifo) r) ↔ EventCopied e count fifo := by
  rw [EventCopied, QueueFile.liberaEventRead]
  cases hready : eventReadReady e count fifo with
  | none => exact iff_of_true nofun nofun
  | some p =>
    obtain ⟨huntouched, hret⟩ := eventReadReady_spec hready
    have hiff := QueueFile.finish_exact_iff eventFile_refines huntouched hret e count
    constructor
    · rintro h _ ⟨⟩
      exact hiff.1 (h _ rfl)
    · rintro h _ ⟨⟩
      exact hiff.2 (h _ rfl)

theorem saRead_iff {e : ReadEvents α} {count : ℕ} {pipe : SaFifo α} :
    (∀ r ∈ QueueFile.liberaSaRead e count pipe,
      ReadExact queuedAtoms saAtomSize (queuedAtoms pipe) r) ↔ SaCopied e count pipe := by
  rw [SaCopied, QueueFile.liberaSaRead]
  cases hready : saReadReady e count pipe with
  | none => exact iff_of_true nofun nofun
  | some p =>
    obtain ⟨huntouched, hret⟩ := saReadReady_spec hready
    have hiff := QueueFile.finish_exact_iff saFile_refines huntouched hret e count
    constructor
    · rintro h _ ⟨⟩
      exact hiff.1 (h _ rfl)
    · rintro h _ ⟨⟩
      exact hiff.2 (h _ rfl)

/-- **Reads that lose nothing.** For every state of the queue, every count and whatever happens
during the read, a read of the event device or of the SA device removes the items that it reports,
and no others, if and only if none of its copies fails. -/
theorem reads_exact_iff {α : Type} (e : ReadEvents LiberaEvent) (e' : ReadEvents α) (count : ℕ)
    (fifo : LiberaEventFifo) (pipe : SaFifo α) :
    ((∀ r ∈ QueueFile.liberaEventRead e count fifo,
      ReadExact queuedEvents eventSize (queuedEvents fifo) r) ↔ EventCopied e count fifo) ∧
    ((∀ r ∈ QueueFile.liberaSaRead e' count pipe,
      ReadExact queuedAtoms saAtomSize (queuedAtoms pipe) r) ↔ SaCopied e' count pipe) :=
  ⟨eventRead_iff, saRead_iff⟩

/-- Two events in the FIFO, and a read of both whose second copy fails. -/
theorem second_event_lost :
    ¬∀ (e : ReadEvents LiberaEvent) (count : ℕ) (fifo : LiberaEventFifo),
      ∀ r ∈ QueueFile.liberaEventRead e count fifo,
        ReadExact queuedEvents eventSize (queuedEvents fifo) r := by
  intro h
  let fifo : LiberaEventFifo := ⟨fun i => ⟨BitVec.ofNat 32 i, 0⟩, 2, 0, by decide, by decide⟩
  let e : ReadEvents LiberaEvent := ⟨false, true, false, [], [], fun i => ⟨[], [], i = 0⟩⟩
  have hread : (QueueFile.liberaEventRead e 16 fifo).map
      (fun r => (r.1, queuedEvents r.2.queue, r.2.stored)) =
      some (-eFault, [], []) := by decide +kernel
  obtain ⟨r, hr, hparts⟩ := Option.map_eq_some_iff.1 hread
  obtain ⟨hret, hrest⟩ := Prod.mk.inj hparts
  obtain ⟨hqueue, hstored⟩ := Prod.mk.inj hrest
  have hfailed := (h e 16 fifo r hr).failed (by rw [hret]; decide)
  rw [hqueue, hstored, List.append_nil] at hfailed
  have hbefore : queuedEvents fifo ≠ [] := by decide +kernel
  exact hbefore hfailed.symm

end LiberaDaq.Kernel
