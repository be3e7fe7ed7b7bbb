import LiberaDaq.Kernel.QueueFiles

/-!
# How much a read copies

`libera_event_read` and `libera_sa_read` take the smaller of the number of items that a request has
room for and the length of the queue, which they read once to compare it and once more to use it.
The interrupt handlers put items into the queue in between. So a request whose room is not less than
the first length, but less than the second one, has more bytes copied to the process than it asked
for (`reads_fit_iff`).
-/

namespace LiberaDaq.Kernel

open LiberaDaq.Memory

variable {α σ : Type}

namespace QueueFile

variable {q : QueueFile α σ} {cap : ℕ} {items : σ → List α} {last : σ → ℕ} {before : List α}
  {x : Reading σ α} {e : ReadEvents α} {count : ℕ}

/-- The queue has no more items than the request has room for when its length is compared, and more
when it is used. -/
def Overtaken (q : QueueFile α σ) (e : ReadEvents α) (count : ℕ) (x : Reading σ α) : Prop :=
  q.queue.len x.queue ≤ count / q.size ∧
    count / q.size < q.queue.len (q.queue.arrive x e.counted).queue

/-- The request has no room for the item that the last of these copies is of. -/
def CopiesBeyond (q : QueueFile α σ) (e : ReadEvents α) (count : ℕ) : Prop :=
  ∀ j < count / q.size + 1, (e.copies j).copied = true

theorem lt_itemCount_iff : count / q.size < q.itemCount e count x ↔ q.Overtaken e count x := by
  rw [itemCount, Overtaken]
  split_ifs with hlt
  · exact iff_of_false (lt_irrefl _) fun h => h.1.not_gt hlt
  · exact ⟨fun h => ⟨not_lt.1 hlt, h⟩, fun h => h.2⟩

/-- **The items of a read.** More is copied than there is room for exactly if the request is
overtaken and the copies succeed up to the first one too many. -/
theorem takeItems_beyond_iff (h : q.queue.Refines cap items last) (hsize : 0 < q.size)
    (hx : Untouched items before x) :
    count < (q.takeItems e count x).2.copied.length * q.size ↔
      q.Overtaken e count x ∧ q.CopiesBeyond e count := by
  obtain ⟨hkept, hcopied⟩ := Untouched.arrive h hx e.counted
  have hle := QueueImpl.le_copied_iff (i := 0) (m := count / q.size + 1) h hkept
    (itemCount_le h hx e count)
  rw [← Nat.div_lt_iff_lt_mul hsize, takeItems, CopiesBeyond, ← lt_itemCount_iff]
  specialize hle e.copies
  rw [hcopied, List.length_nil, Nat.zero_add, Nat.succ_le_iff, Nat.succ_le_iff] at hle
  simpa only [Nat.zero_add] using hle

/-- A read, after the part of it that comes before the items. -/
theorem finish_beyond_iff (e : ReadEvents α) (count : ℕ) (h : q.queue.Refines cap items last)
    (hsize : 0 < q.size) {p : Option ℤ × Reading σ α} (hp : Untouched items before p.2) :
    count < (q.finish e count p).2.copied.length * q.size ↔
      p.1 = none ∧ q.Overtaken e count p.2 ∧ q.CopiesBeyond e count := by
  obtain ⟨o, x⟩ := p
  cases o with
  | some ret =>
    have hcopied : x.copied = [] := hp.copied
    simp [finish, hcopied]
  | none => simp [finish, takeItems_beyond_iff h hsize hp]

end QueueFile

/-! ## The two devices -/

/-- A read of the event device that is overtaken, with all copies that it takes to go too far. -/
def EventOverrun (e : ReadEvents LiberaEvent) (count : ℕ) (fifo : LiberaEventFifo) : Prop :=
  ∃ p ∈ eventReadReady e count fifo,
    p.1 = none ∧ eventFile.Overtaken e count p.2 ∧ eventFile.CopiesBeyond e count

/-- A read of the SA device that is overtaken, with all copies that it takes to go too far. -/
def SaOverrun (e : ReadEvents α) (count : ℕ) (pipe : SaFifo α) : Prop :=
  ∃ p ∈ saReadReady e count pipe,
    p.1 = none ∧ (saFile α).Overtaken e count p.2 ∧ (saFile α).CopiesBeyond e count

theorem eventRead_fits_iff {e : ReadEvents LiberaEvent} {count : ℕ} {fifo : LiberaEventFifo} :
    (∀ r ∈ QueueFile.liberaEventRead e count fifo, r.2.copied.length * eventSize ≤ count) ↔
      ¬EventOverrun e count fifo := by
  rw [EventOverrun, QueueFile.liberaEventRead]
  cases hready : eventReadReady e count fifo with
  | none => simp
  | some p =>
    have hiff := QueueFile.finish_beyond_iff e count eventFile_refines
      (show 0 < eventSize by decide) (eventReadReady_spec hready).1
    simp only [Option.map_some, Option.mem_some, forall_eq', exists_eq_left', ← hiff, not_lt]
    rfl

theorem saRead_fits_iff {e : ReadEvents α} {count : ℕ} {pipe : SaFifo α} :
    (∀ r ∈ QueueFile.liberaSaRead e count pipe, r.2.copied.length * saAtomSize ≤ count) ↔
      ¬SaOverrun e count pipe := by
  rw [SaOverrun, QueueFile.liberaSaRead]
  cases hready : saReadReady e count pipe with
  | none => simp
  | some p =>
    have hiff := QueueFile.finish_beyond_iff e count saFile_refines
      (show 0 < saAtomSize by decide) (saReadReady_spec hready).1
    simp only [Option.map_some, Option.mem_some, forall_eq', exists_eq_left', ← hiff, not_lt]
    rfl

/-- **Reads that fit.** For every state of the queue, every count and whatever happens during the
read, a read of the event device or of the SA device copies no more than it was asked for, unless it
is overtaken by items that come while it counts them. -/
theorem reads_fit_iff {α : Type} (e : ReadEvents LiberaEvent) (e' : ReadEvents α) (count : ℕ)
    (fifo : LiberaEventFifo) (pipe : SaFifo α) :
    ((∀ r ∈ QueueFile.liberaEventRead e count fifo, r.2.copied.length * eventSize ≤ count) ↔
      ¬EventOverrun e count fifo) ∧
    ((∀ r ∈ QueueFile.liberaSaRead e' count pipe, r.2.copied.length * saAtomSize ≤ count) ↔
      ¬SaOverrun e' count pipe) :=
  ⟨eventRead_fits_iff, saRead_fits_iff⟩

/-- A request for one event, which gets two. -/
example : (QueueFile.liberaEventRead
    ⟨false, true, false, [], [⟨8, 1⟩], fun _ => ⟨[], [], true⟩⟩ 8
    ⟨fun _ => ⟨8, 0⟩, 1, 0, by decide, by decide⟩).map (fun r => (r.1, r.2.copied)) =
      some (16, [⟨8, 0⟩, ⟨8, 1⟩]) := by
  decide +kernel

end LiberaDaq.Kernel
