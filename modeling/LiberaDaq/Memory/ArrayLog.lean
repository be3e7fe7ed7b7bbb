import LiberaDaq.Interaction.Path

/-!
# The log of an array

An array that several parties read and write is described by the log of what was done to it: which
items were put, from which index on, and which were taken. The log agrees with the array when each
list of items that was taken is what the entries before it left there. What was put is taken again as
long as the entries in between spare it (`taken_of_put`).
-/

namespace LiberaDaq.Memory

open LiberaDaq.Interaction

/-- An entry of the log: the items that were put or taken, from an index on. -/
inductive ArrayOp (α : Type)
  | put (i : ℕ) (xs : List α)
  | take (i : ℕ) (xs : List α)

namespace ArrayOp

variable {α : Type}

/-- The array after an entry. -/
def apply (f : ℕ → α) (e : ArrayOp α) (j : ℕ) : α :=
  match e with
  | .put i xs => if i ≤ j then xs[j - i]?.getD (f j) else f j
  | .take _ _ => f j

/-- The items that were taken are those of the array. -/
def Agrees (f : ℕ → α) : ArrayOp α → Prop
  | .put _ _ => True
  | .take i xs => ∀ k (h : k < xs.length), xs[k] = f (i + k)

/-- The entry leaves `n` items from the index `i` on as they are. -/
def Spares (i n : ℕ) : ArrayOp α → Prop
  | .put i' xs => i' + xs.length ≤ i ∨ i + n ≤ i'
  | .take _ _ => True

variable {f : ℕ → α} {i j n : ℕ} {xs ys : List α} {e : ArrayOp α} {es : List (ArrayOp α)}

theorem apply_put_at {k : ℕ} (h : k < xs.length) : (ArrayOp.put i xs).apply f (i + k) = xs[k] := by
  simp [apply, h]

theorem Spares.apply_eq (h : e.Spares i n) (hij : i ≤ j) (hjn : j < i + n) : e.apply f j = f j := by
  cases e with
  | put i' xs =>
    simp only [apply]
    split
    · next hj =>
      have hout : xs.length ≤ j - i' := by
        rcases h with h | h <;> omega
      rw [List.getElem?_eq_none hout]
      rfl
    · rfl
  | take => rfl

theorem foldl_apply_spares (h : ∀ e ∈ es, e.Spares i n) (hij : i ≤ j) (hjn : j < i + n) :
    es.foldl apply f j = f j := by
  induction es generalizing f with
  | nil => rfl
  | cons e es ih =>
    rw [List.foldl_cons, ih fun e' he' => h e' (List.mem_cons_of_mem e he')]
    exact (h e List.mem_cons_self).apply_eq hij hjn

/-- **What was put is taken again**, as long as the entries in between spare it. -/
theorem taken_of_put (h : Along apply Agrees f (.put i xs :: es ++ [.take i ys]))
    (hes : ∀ e ∈ es, e.Spares i xs.length) (hlen : ys.length = xs.length) : ys = xs := by
  obtain ⟨-, htake, -⟩ := along_append.1 h
  apply List.ext_getElem hlen
  intro k hk hk'
  rw [htake k hk, List.foldl_cons, foldl_apply_spares hes (Nat.le_add_right i k) (by omega),
    apply_put_at hk']

end ArrayOp

end LiberaDaq.Memory
