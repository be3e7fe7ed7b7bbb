import Mathlib.Data.List.Basic
import Mathlib.Data.List.Induction
import Mathlib.Tactic.Common

/-!
# Loops that are fed

A loop takes one answer from its surroundings in every turn, and goes on while the state it came to
asks for more: its test stands at its end. The answers come one after the other without an end, and
the loop is given a number of turns; `feed_eq_some` says after which answers it ends.
-/

namespace LiberaDaq.Interaction

variable {σ α : Type}

/-- The first `k` answers. -/
def answers (rs : ℕ → α) (k : ℕ) : List α := (List.range k).map rs

/-- The answers from the `k`-th on. -/
def later (rs : ℕ → α) (k : ℕ) : ℕ → α := fun i => rs (k + i)

variable {rs : ℕ → α} {k : ℕ}

@[simp] theorem answers_zero : answers rs 0 = [] := rfl

theorem answers_succ (rs : ℕ → α) (k : ℕ) : answers rs (k + 1) = answers rs k ++ [rs k] := by
  simp [answers, List.range_succ]

theorem answers_add (rs : ℕ → α) (k n : ℕ) :
    answers rs (k + n) = answers rs k ++ answers (later rs k) n := by
  induction n with
  | zero => simp
  | succ n ih => rw [← Nat.add_assoc, answers_succ, ih, answers_succ, List.append_assoc]; rfl

theorem answers_succ' (rs : ℕ → α) (k : ℕ) :
    answers rs (k + 1) = rs 0 :: answers (later rs 1) k := by
  rw [Nat.add_comm, answers_add, answers_succ]
  rfl

theorem mem_answers {a : α} : a ∈ answers rs k ↔ ∃ i < k, rs i = a := by
  simp [answers]

/-- At most `n` turns of the loop, with the number of turns it made. -/
def feed (turn : σ → α → σ) (go : σ → Bool) : ℕ → (ℕ → α) → σ → Option (σ × ℕ)
  | 0, _, _ => none
  | n + 1, rs, s =>
    if go (turn s (rs 0)) then
      (feed turn go n (later rs 1) (turn s (rs 0))).map fun x => (x.1, x.2 + 1)
    else some (turn s (rs 0), 1)

/-- The loop goes on after each of its first `k` turns. -/
def Goes (turn : σ → α → σ) (go : σ → Bool) (rs : ℕ → α) (s : σ) (k : ℕ) : Prop :=
  ∀ i < k, go ((answers rs (i + 1)).foldl turn s) = true

section

variable {turn : σ → α → σ} {go : σ → Bool} {s t : σ} {n : ℕ}

@[simp] theorem goes_zero : Goes turn go rs s 0 := fun i hi => absurd hi i.not_lt_zero

theorem goes_succ :
    Goes turn go rs s (k + 1) ↔
      Goes turn go rs s k ∧ go ((answers rs (k + 1)).foldl turn s) = true := by
  refine ⟨fun h => ⟨fun i hi => h i (by omega), h k k.lt_succ_self⟩, fun h i hi => ?_⟩
  rcases Nat.lt_succ_iff_lt_or_eq.1 hi with hi | rfl
  · exact h.1 i hi
  · exact h.2

theorem goes_succ' :
    Goes turn go rs s (k + 1) ↔
      go (turn s (rs 0)) = true ∧ Goes turn go (later rs 1) (turn s (rs 0)) k := by
  constructor
  · intro h
    refine ⟨h 0 k.succ_pos, fun i hi => ?_⟩
    have hlater := h (i + 1) (by omega)
    rwa [answers_succ' rs (i + 1), List.foldl_cons] at hlater
  · rintro ⟨hfirst, h⟩ i hi
    rw [answers_succ', List.foldl_cons]
    rcases i with _ | i
    · exact hfirst
    · exact h i (by omega)

/-- **The loop ends** after the first turn that does not ask for more. -/
theorem feed_eq_some :
    feed turn go n rs s = some (t, k) ↔
      ∃ j < n, k = j + 1 ∧ t = (answers rs k).foldl turn s ∧ Goes turn go rs s j ∧
        go t = false := by
  induction n generalizing rs s t k with
  | zero => simp [feed]
  | succ n ih =>
    cases hgo : go (turn s (rs 0)) with
    | false =>
      rw [feed, hgo, if_neg Bool.false_ne_true]
      constructor
      · intro h
        obtain ⟨rfl, rfl⟩ := Prod.mk.inj (Option.some.inj h)
        exact ⟨0, n.succ_pos, rfl, rfl, goes_zero, hgo⟩
      · rintro ⟨j, -, rfl, rfl, hgoes, -⟩
        rcases j with _ | j
        · rfl
        · have hfirst := (goes_succ'.1 hgoes).1
          rw [hgo] at hfirst
          cases hfirst
    | true =>
      rw [feed, hgo, if_pos rfl, Option.map_eq_some_iff]
      constructor
      · rintro ⟨⟨t', k'⟩, h, heq⟩
        obtain ⟨rfl, rfl⟩ := Prod.mk.inj heq
        obtain ⟨j, hj, rfl, rfl, hgoes, hstop⟩ := ih.1 h
        exact ⟨j + 1, by omega, rfl, by rw [answers_succ' rs (j + 1), List.foldl_cons],
          goes_succ'.2 ⟨hgo, hgoes⟩, hstop⟩
      · rintro ⟨j, hj, rfl, rfl, hgoes, hstop⟩
        rcases j with _ | j
        · rw [answers_succ, answers_zero, List.nil_append, List.foldl_cons, List.foldl_nil,
            hgo] at hstop
          cases hstop
        · refine ⟨(_, j + 1), ih.2 ⟨j, by omega, rfl, rfl, (goes_succ'.1 hgoes).2, ?_⟩, ?_⟩
          · rwa [answers_succ', List.foldl_cons] at hstop
          · rw [answers_succ' rs (j + 1), List.foldl_cons]

/-- The number of turns that the loop is given does not matter, if it is enough. -/
theorem exists_feed :
    (∃ n, feed turn go n rs s = some (t, k)) ↔
      ∃ j, k = j + 1 ∧ t = (answers rs k).foldl turn s ∧ Goes turn go rs s j ∧ go t = false := by
  simp only [feed_eq_some]
  constructor
  · rintro ⟨n, j, -, h⟩
    exact ⟨j, h⟩
  · rintro ⟨j, h⟩
    exact ⟨j + 1, j, j.lt_succ_self, h⟩

end

end LiberaDaq.Interaction
