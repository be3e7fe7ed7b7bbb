import LiberaDaq.Memory.Queue

/-!
# Taking items off a queue

A reader takes a number of items off a queue, one at a time, and hands on a copy of the cell of
each; the copy may fail, and then the reader stops. Others put items in at any point, so that the
queue has more to give in the end than at the beginning.

What was in the queue and what came to it is what was taken off and what is left (`Kept`). The
reader takes the first items in order; when a copy fails, at least one item has been taken that was
not handed on (`copyItems_all`, `copyItems_fault`).
-/

namespace LiberaDaq.Memory

variable {α σ ρ : Type}

/-- The state of a reader: the queue, the items that came to it since the beginning, and the copies
that were handed on. -/
structure Reading (σ α : Type) where
  queue : σ
  stored : List α
  copied : List α

/-- What happens around one copy: the items that are put before the item is taken off and before it
is copied, and whether the copy succeeds. -/
structure CopyTurn (α : Type) where
  before : List α
  between : List α
  copied : Bool

namespace QueueImpl

variable (q : QueueImpl α σ ρ)

/-- An item is put; a full queue refuses it. -/
def arriveOne (x : Reading σ α) (a : α) : Reading σ α :=
  let y := q.put x.queue a
  { x with queue := y.2, stored := if y.1 then x.stored ++ [a] else x.stored }

/-- Items are put. -/
def arrive (x : Reading σ α) (as : List α) : Reading σ α := as.foldl q.arriveOne x

/-- The loop that takes `n` items off, from the turn `i` on, and whether it came to its end. -/
def copyItems (env : ℕ → CopyTurn α) : ℕ → ℕ → Reading σ α → Bool × Reading σ α
  | _, 0, x => (true, x)
  | i, n + 1, x =>
    let x := q.arrive x (env i).before
    match q.get x.queue with
    | (none, s) => (false, { x with queue := s })
    | (some r, s) =>
      let x := q.arrive { x with queue := s } (env i).between
      if (env i).copied then
        copyItems env (i + 1) n { x with copied := x.copied ++ [q.cell x.queue r] }
      else (false, x)

/-! ## What is kept -/

/-- What was in the queue and what came to it was taken off, or is in the queue. -/
def Kept (items : σ → List α) (before taken : List α) (x : Reading σ α) : Prop :=
  before ++ x.stored = taken ++ items x.queue

variable {q} {cap : ℕ} {items : σ → List α} {last : σ → ρ} {before taken : List α} {x : Reading σ α}

theorem kept_arriveOne (h : q.Refines cap items last) (hx : Kept items before taken x) (a : α) :
    Kept items before taken (q.arriveOne x a) ∧
      (items x.queue).length ≤ (items (q.arriveOne x a).queue).length := by
  have hstep := h.step x.queue (.put a)
  simp only [QueueImpl.step, queueStep] at hstep
  split_ifs at hstep with hroom
  · obtain ⟨hans, hitems⟩ := Prod.mk.inj hstep
    have hstored := QueueAns.put.inj hans
    constructor
    · rw [Kept, arriveOne]
      dsimp only
      rw [hstored, hitems, if_pos rfl, ← List.append_assoc, ← List.append_assoc, hx]
    · rw [arriveOne, hitems, List.length_append]
      exact Nat.le_add_right ..
  · obtain ⟨hans, hitems⟩ := Prod.mk.inj hstep
    have hstored := QueueAns.put.inj hans
    constructor
    · rw [Kept, arriveOne]
      dsimp only
      rw [hstored, hitems, if_neg (by rintro ⟨⟩), hx]
    · rw [arriveOne, hitems]

theorem kept_arrive (h : q.Refines cap items last) (hx : Kept items before taken x) (as : List α) :
    Kept items before taken (q.arrive x as) ∧
      (items x.queue).length ≤ (items (q.arrive x as).queue).length := by
  induction as generalizing x with
  | nil => exact ⟨hx, le_refl _⟩
  | cons a as ih =>
    obtain ⟨hone, hle⟩ := kept_arriveOne h hx a
    obtain ⟨hkept, hle'⟩ := ih hone
    exact ⟨hkept, hle.trans hle'⟩

@[simp] theorem copied_arrive (as : List α) : (q.arrive x as).copied = x.copied := by
  induction as generalizing x with
  | nil => rfl
  | cons a as ih => exact ih

/-- The cell that was taken off last keeps its contents while items are put. -/
theorem cell_arrive (h : q.Refines cap items last) {r : ρ} (hr : last x.queue = r) (as : List α) :
    q.cell (q.arrive x as).queue r = q.cell x.queue r := by
  induction as generalizing x with
  | nil => rfl
  | cons a as ih =>
    have hput : q.cell (q.put x.queue a).2 r = q.cell x.queue r := hr ▸ h.put_cell x.queue a
    have hlast : last (q.arriveOne x a).queue = r := (h.put_last x.queue a).trans hr
    exact (ih hlast).trans hput

/-- The next item is taken off. -/
theorem get_spec (h : q.Refines cap items last) {s : σ} (hs : 0 < (items s).length) :
    ∃ r s', q.get s = (some r, s') ∧ last s' = r ∧ items s = q.cell s' r :: items s' := by
  have hstep := h.step s .get
  simp only [QueueImpl.step] at hstep
  cases hitems : items s with
  | nil => simp [hitems] at hs
  | cons a rest =>
    rw [hitems, queueStep] at hstep
    obtain ⟨hans, hrest⟩ := Prod.mk.inj hstep
    obtain ⟨r, hr, ha⟩ := Option.map_eq_some_iff.1 (QueueAns.get.inj hans)
    refine ⟨r, (q.get s).2, Prod.ext hr rfl, (h.get_last s r _ (Prod.ext hr rfl)).symm, ?_⟩
    rw [ha, hrest]

/-- One turn of the loop. -/
theorem copyItems_succ (h : q.Refines cap items last) {env : ℕ → CopyTurn α} {i n : ℕ}
    (hx : Kept items before taken x) (hpos : 0 < (items x.queue).length) :
    ∃ a y, Kept items before (taken ++ [a]) y ∧ y.copied = x.copied ∧
      (items x.queue).length ≤ (items y.queue).length + 1 ∧
      q.copyItems env i (n + 1) x =
        if (env i).copied then q.copyItems env (i + 1) n { y with copied := x.copied ++ [a] }
        else (false, y) := by
  obtain ⟨hkept, hle⟩ := kept_arrive h hx (env i).before
  obtain ⟨r, s, hget, hlast, hitems⟩ := get_spec h (hpos.trans_le hle)
  have htaken : Kept items before (taken ++ [q.cell s r])
      { q.arrive x (env i).before with queue := s } := by
    rw [Kept] at hkept ⊢
    rw [hkept, hitems, List.append_assoc]
    rfl
  obtain ⟨hkept', hle'⟩ := kept_arrive h htaken (env i).between
  have hcell :=
      cell_arrive h (x := { q.arrive x (env i).before with queue := s }) hlast (env i).between
  have hcopied : (q.arrive { q.arrive x (env i).before with queue := s } (env i).between).copied =
      x.copied := by
    rw [copied_arrive]
    exact copied_arrive _
  refine ⟨q.cell s r, _, hkept', hcopied, ?_, ?_⟩
  · rw [hitems, List.length_cons] at hle
    exact hle.trans (Nat.succ_le_succ hle')
  · rw [copyItems, hget]
    dsimp only
    rw [hcell, hcopied]

/-- **All copies succeed.** The first items were taken off in order and handed on. -/
theorem copyItems_all (h : q.Refines cap items last) {env : ℕ → CopyTurn α} {i n : ℕ}
    (hx : Kept items before taken x) (hn : n ≤ (items x.queue).length)
    (hall : ∀ j, i ≤ j → j < i + n → (env j).copied = true) :
    ∃ more y, q.copyItems env i n x = (true, y) ∧ more.length = n ∧
      Kept items before (taken ++ more) y ∧ y.copied = x.copied ++ more := by
  induction n generalizing i x taken with
  | zero => exact ⟨[], x, rfl, rfl, by rwa [List.append_nil], (List.append_nil _).symm⟩
  | succ n ih =>
    obtain ⟨a, y, hkept, -, hle, hturn⟩ :=
      copyItems_succ (n := n) h hx (Nat.lt_of_lt_of_le (Nat.succ_pos n) hn)
    obtain ⟨more, z, hrest, hlength, hkept', hcopied⟩ :=
      ih (i := i + 1) (x := { y with copied := x.copied ++ [a] }) hkept (by dsimp only; omega)
        fun j hij hj => hall j (by omega) (by omega)
    refine ⟨a :: more, z, ?_, by rw [List.length_cons, hlength], ?_, ?_⟩
    · rw [hturn, if_pos (hall i (le_refl i) (by omega)), hrest]
    · rwa [List.append_assoc] at hkept'
    · rw [hcopied, List.append_assoc]
      rfl

/-- **A copy fails.** The item that it was of is off the queue, as are those before it. -/
theorem copyItems_fault (h : q.Refines cap items last) {env : ℕ → CopyTurn α} {i n : ℕ}
    (hx : Kept items before taken x) (hn : n ≤ (items x.queue).length)
    (hfault : ∃ j, i ≤ j ∧ j < i + n ∧ (env j).copied = false) :
    ∃ more y, q.copyItems env i n x = (false, y) ∧ more ≠ [] ∧
      Kept items before (taken ++ more) y := by
  induction n generalizing i x taken with
  | zero =>
    obtain ⟨j, hij, hj, -⟩ := hfault
    omega
  | succ n ih =>
    obtain ⟨a, y, hkept, -, hle, hturn⟩ :=
      copyItems_succ (n := n) h hx (Nat.lt_of_lt_of_le (Nat.succ_pos n) hn)
    by_cases hfirst : (env i).copied = true
    · obtain ⟨j, hij, hj, hfail⟩ := hfault
      have hne : i ≠ j := by
        rintro rfl
        rw [hfirst] at hfail
        cases hfail
      obtain ⟨more, z, hrest, -, hkept'⟩ :=
        ih (i := i + 1) (x := { y with copied := x.copied ++ [a] }) hkept (by dsimp only; omega)
          ⟨j, by omega, by omega, hfail⟩
      refine ⟨a :: more, z, ?_, List.cons_ne_nil _ _, ?_⟩
      · rw [hturn, if_pos hfirst, hrest]
      · rwa [List.append_assoc] at hkept'
    · exact ⟨[a], y, by rw [hturn, if_neg hfirst], List.cons_ne_nil _ _, hkept⟩

/-- What was handed on remains. -/
theorem copied_le_copyItems {env : ℕ → CopyTurn α} {i n : ℕ} :
    x.copied.length ≤ (q.copyItems env i n x).2.copied.length := by
  induction n generalizing i x with
  | zero => exact le_refl _
  | succ n ih =>
    rw [copyItems]
    dsimp only
    split
    · simp
    · split_ifs
      · refine le_trans ?_ ih
        simp
      · simp

/-- The number of copies that are handed on: at least `m` exactly if as many items are to be taken
off and the first `m` copies succeed. -/
theorem le_copied_iff (h : q.Refines cap items last) {i n m : ℕ}
    (hx : Kept items before taken x) (hn : n ≤ (items x.queue).length) (env : ℕ → CopyTurn α) :
    x.copied.length + m ≤ (q.copyItems env i n x).2.copied.length ↔
      m ≤ n ∧ ∀ j < m, (env (i + j)).copied = true := by
  induction n generalizing i x taken m with
  | zero => cases m <;> simp [copyItems]
  | succ n ih =>
    cases m with
    | zero => simpa using copied_le_copyItems
    | succ m =>
      obtain ⟨a, y, hkept, hsame, hle, hturn⟩ :=
        copyItems_succ (n := n) h hx (Nat.lt_of_lt_of_le (Nat.succ_pos n) hn)
      rw [hturn, Nat.forall_lt_succ_left, Nat.succ_le_succ_iff]
      by_cases hfirst : (env i).copied = true
      · have hrest := ih (i := i + 1) (m := m) (x := { y with copied := x.copied ++ [a] }) hkept
          (by dsimp only; omega)
        dsimp only at hrest
        rw [List.length_append, List.length_singleton, Nat.add_right_comm, Nat.add_assoc] at hrest
        have hsum : ∀ j, i + 1 + j = i + (j + 1) := fun j => by omega
        rw [if_pos hfirst, hrest]
        simp only [hsum, Nat.add_zero, and_iff_right hfirst]
      · rw [if_neg hfirst, hsame]
        refine iff_of_false (by simp) fun hall => hfirst hall.2.1

end QueueImpl

end LiberaDaq.Memory
