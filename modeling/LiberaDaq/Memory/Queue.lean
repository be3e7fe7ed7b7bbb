import LiberaDaq.Memory.Ring

/-!
# Bounded queues

`queueStep cap` is a queue with room for `cap` items: an item that is put while there is room goes
to the end, one that is put into a full queue is refused, and a get takes the first item off.

A component with the same operations, whose get returns a reference to a cell of its own, refines
the queue if one operation does (`Refines`). It then gives the answers of the queue in every run
(`Refines.runs`), and the cell that a get has referred to keeps its contents until the next get or
flush (`Refines.cell_kept`).

A ring of `n` cells (`Ring`) refines a queue with room for `n - 1` items (`Ring.refines`), and so
does a component that can be seen as such a ring (`Refines.comap`).
-/

namespace LiberaDaq.Memory

variable {α σ ρ : Type}

/-- The operations of a queue. -/
inductive QueueOp (α : Type)
  | put (a : α)
  | get
  | flush

/-- What an operation gives back: whether the item was stored, the item that was taken off. -/
inductive QueueAns (α : Type)
  | put (stored : Bool)
  | get (a : Option α)
  | flush
  deriving DecidableEq

/-- An operation on the queue with room for `cap` items. -/
def queueStep (cap : ℕ) : List α → QueueOp α → QueueAns α × List α
  | items, .put a => if items.length < cap then (.put true, items ++ [a]) else (.put false, items)
  | [], .get => (.get none, [])
  | a :: items, .get => (.get (some a), items)
  | _, .flush => (.flush, [])

/-- The answers to a sequence of operations, and the state after it. -/
def runOps {O R : Type} (step : σ → O → R × σ) : σ → List O → List R × σ
  | s, [] => ([], s)
  | s, op :: ops =>
    let (x, s) := step s op
    let (xs, s) := runOps step s ops
    (x :: xs, s)

/-! ## Components -/

/-- A component with the operations of a queue, whose cells hold the items; `ρ` are the references
to them. -/
structure QueueImpl (α σ ρ : Type) where
  put : σ → α → Bool × σ
  get : σ → Option ρ × σ
  flush : σ → σ
  len : σ → ℕ
  cell : σ → ρ → α

/-- An operation of the component. The item of a get is what is in the cell at once. -/
def QueueImpl.step (q : QueueImpl α σ ρ) (s : σ) : QueueOp α → QueueAns α × σ
  | .put a => (.put (q.put s a).1, (q.put s a).2)
  | .get => (.get ((q.get s).1.map (q.cell (q.get s).2)), (q.get s).2)
  | .flush => (.flush, q.flush s)

/-- The component refines the queue with room for `cap` items: it holds `items`, and `last` is the
reference that the last get has returned. -/
structure QueueImpl.Refines (q : QueueImpl α σ ρ) (cap : ℕ) (items : σ → List α) (last : σ → ρ) :
    Prop where
  step : ∀ s op, ((q.step s op).1, items (q.step s op).2) = queueStep cap (items s) op
  bounded : ∀ s, (items s).length ≤ cap
  len : ∀ s, q.len s = (items s).length
  get_last : ∀ s r s', q.get s = (some r, s') → r = last s'
  put_last : ∀ s a, last (q.put s a).2 = last s
  put_cell : ∀ s a, q.cell (q.put s a).2 (last s) = q.cell s (last s)

namespace QueueImpl.Refines

variable {q : QueueImpl α σ ρ} {cap : ℕ} {items : σ → List α} {last : σ → ρ}

/-- **Every run gives the answers of the queue**, and leaves the items of the queue. -/
theorem runs (h : q.Refines cap items last) (ops : List (QueueOp α)) (s : σ) :
    ((runOps q.step s ops).1, items (runOps q.step s ops).2) =
      runOps (queueStep cap) (items s) ops := by
  induction ops generalizing s with
  | nil => rfl
  | cons op ops ih =>
    have hstep := h.step s op
    have hrest := ih (q.step s op).2
    simp only [runOps]
    rw [← hstep]
    dsimp only
    rw [← hrest]

/-- **The cell that a get has referred to keeps its contents** as long as items are put. -/
theorem cell_kept (h : q.Refines cap items last) {s s' : σ} {r : ρ} (hget : q.get s = (some r, s'))
    {ops : List (QueueOp α)} (hops : ∀ op ∈ ops, ∃ a, op = .put a) :
    q.cell (runOps q.step s' ops).2 r = q.cell s' r := by
  have hkept : ∀ s₁, last s₁ = r → q.cell (runOps q.step s₁ ops).2 r = q.cell s₁ r := by
    induction ops with
    | nil => exact fun _ _ => rfl
    | cons op ops ih =>
      intro s₁ hs₁
      obtain ⟨⟨a, rfl⟩, hrest⟩ := List.forall_mem_cons.1 hops
      have hput : q.cell (q.put s₁ a).2 r = q.cell s₁ r := hs₁ ▸ h.put_cell s₁ a
      exact (ih hrest _ ((h.put_last s₁ a).trans hs₁)).trans hput
  exact hkept s' (h.get_last s r s' hget).symm

/-- A component whose operations are those of one that refines the queue, seen through a map,
refines it as well. -/
theorem comap {τ : Type} {q : QueueImpl α τ ρ} {items : τ → List α} {last : τ → ρ}
    (h : q.Refines cap items last) {p : QueueImpl α σ ρ} (f : σ → τ)
    (hput : ∀ s a, q.put (f s) a = ((p.put s a).1, f (p.put s a).2))
    (hget : ∀ s, q.get (f s) = ((p.get s).1, f (p.get s).2))
    (hflush : ∀ s, q.flush (f s) = f (p.flush s))
    (hlen : ∀ s, q.len (f s) = p.len s) (hcell : ∀ s, q.cell (f s) = p.cell s) :
    p.Refines cap (items ∘ f) (last ∘ f) where
  step s op := by
    rw [Function.comp_apply, Function.comp_apply, ← h.step]
    cases op with
    | put a => simp only [QueueImpl.step, hput]
    | get => simp only [QueueImpl.step, hget, hcell]
    | flush => simp only [QueueImpl.step, hflush]
  bounded s := h.bounded (f s)
  len s := (hlen s).symm.trans (h.len (f s))
  get_last s r s' hs := h.get_last (f s) r (f s') (by rw [hget, hs])
  put_last s a := by
    have hlast := h.put_last (f s) a
    rwa [hput] at hlast
  put_cell s a := by
    have hkept := h.put_cell (f s) a
    rwa [hput, hcell, hcell] at hkept

end QueueImpl.Refines

/-! ## Rings -/

/-- A ring of `n` cells with the indices of the cells that were written and read last. -/
structure Ring (n : ℕ) (α : Type) where
  cells : ℕ → α
  put : ℕ
  get : ℕ
  put_lt : put < n
  get_lt : get < n

namespace Ring

variable {n : ℕ} {r : Ring n α} {a : α}

theorem size_pos (r : Ring n α) : 0 < n := Nat.zero_lt_of_lt r.put_lt

/-- Stores an item in the next cell, unless that is the one that was read last. -/
def store (r : Ring n α) (a : α) : Bool × Ring n α :=
  if (r.put + 1) % n = r.get then (false, r)
  else (true, { r with cells := Function.update r.cells ((r.put + 1) % n) a, put := (r.put + 1) % n
                       put_lt := Nat.mod_lt _ r.size_pos })

/-- Takes the next item off, and returns the index of its cell. -/
def take (r : Ring n α) : Option ℕ × Ring n α :=
  if r.put = r.get then (none, r)
  else (some ((r.get + 1) % n),
    { r with get := (r.get + 1) % n, get_lt := Nat.mod_lt _ r.size_pos })

def clear (r : Ring n α) : Ring n α :=
  { r with put := 0, get := 0, put_lt := r.size_pos, get_lt := r.size_pos }

/-- The items in the ring, the next one first. -/
def items (r : Ring n α) : List α := ringQueue r.cells n r.get r.put

/-- The ring with the operations of a queue. -/
def impl (n : ℕ) (α : Type) : QueueImpl α (Ring n α) ℕ where
  put := store
  get := take
  flush := clear
  len r := ringDist n r.get r.put
  cell := cells

theorem length_items : r.items.length = ringDist n r.get r.put := length_ringQueue

/-- The next cell is the one that was read last when the ring is full. -/
theorem next_eq_get_iff : (r.put + 1) % n = r.get ↔ ¬r.items.length < n - 1 := by
  have hlt : ringDist n r.get r.put < n := ringDist_lt r.size_pos
  rw [next_eq_iff r.get_lt r.put_lt, length_items]
  omega

/-- **A ring of `n` cells refines a queue with room for `n - 1` items.** -/
theorem refines (n : ℕ) (α : Type) : (impl n α).Refines (n - 1) items get where
  step r op := by
    cases op with
    | put a =>
      simp only [QueueImpl.step, impl, store, queueStep, next_eq_get_iff]
      by_cases hroom : r.items.length < n - 1
      · have hne : (r.put + 1) % n ≠ r.get := fun h => next_eq_get_iff.1 h hroom
        rw [if_pos hroom, if_neg (not_not.2 hroom)]
        exact congrArg (Prod.mk _) (ringQueue_put r.get_lt r.put_lt hne)
      · rw [if_neg hroom, if_pos hroom]
    | get =>
      simp only [QueueImpl.step, impl, take]
      by_cases h : r.put = r.get
      · have hnil : r.items = [] := by rw [items, h, ringQueue_self]
        rw [if_pos h, hnil]
        rfl
      · have hcons : r.items = _ := ringQueue_get r.get_lt r.put_lt h
        rw [if_neg h, hcons]
        rfl
    | flush => exact congrArg (Prod.mk _) ringQueue_self
  bounded r := by
    rw [length_items]
    exact Nat.le_sub_one_of_lt (ringDist_lt r.size_pos)
  len r := length_items.symm
  get_last r i r' h := by
    simp only [impl, take] at h
    split at h
    · cases h
    · obtain ⟨hi, rfl⟩ := Prod.mk.inj h
      exact (Option.some.inj hi).symm
  put_last r a := by
    simp only [impl, store]
    split <;> rfl
  put_cell r a := by
    simp only [impl, store]
    split
    · rfl
    · next h => exact Function.update_of_ne (Ne.symm h) _ _

end Ring

end LiberaDaq.Memory
