import Mathlib.Logic.Function.Iterate

/-!
# Loops that may not end

A loop repeats a body, which may fail, while its guard holds. It is given a number of turns, and a
loop that needs more of them is stuck. An invariant says what holds when the loop ends, and a
measure that it does.
-/

namespace LiberaDaq

variable {σ ε : Type}

/-- At most `n - 1` turns of the loop, and the last test of the guard. -/
def loop (stuck : ε) (guard : σ → Bool) (body : σ → Except ε σ) : ℕ → σ → Except ε σ
  | 0, _ => .error stuck
  | n + 1, s => if guard s then body s >>= loop stuck guard body n else .ok s

section

variable {stuck : ε} {guard : σ → Bool} {body : σ → Except ε σ}

theorem loop_done {s : σ} (h : guard s = false) (n : ℕ) :
    loop stuck guard body (n + 1) s = .ok s := by
  simp [loop, h]

theorem loop_turn {s s' : σ} (h : guard s = true) (hbody : body s = .ok s') (n : ℕ) :
    loop stuck guard body (n + 1) s = loop stuck guard body n s' := by
  simp only [loop, h, hbody, if_true]
  rfl

/-- What every turn keeps holds when the loop ends, and the guard does not. -/
theorem loop_invariant {Inv : σ → Prop}
    (hstep : ∀ s s', Inv s → guard s = true → body s = .ok s' → Inv s') {n : ℕ} {s s' : σ}
    (hs : Inv s) (h : loop stuck guard body n s = .ok s') : Inv s' ∧ guard s' = false := by
  induction n generalizing s with
  | zero => exact nomatch h
  | succ n ih =>
    cases hguard : guard s with
    | false =>
      rw [loop_done hguard] at h
      cases h
      exact ⟨hs, hguard⟩
    | true =>
      simp only [loop, hguard, if_true] at h
      cases hbody : body s with
      | error e =>
        rw [hbody] at h
        exact nomatch h
      | ok s₁ =>
        rw [hbody] at h
        exact ih (hstep s s₁ hs hguard hbody) h

/-- While the invariant holds the loop is stuck, or a turn fails. -/
theorem loop_error {Inv : σ → Prop}
    (hstep : ∀ s s', Inv s → guard s = true → body s = .ok s' → Inv s') {n : ℕ} {s : σ} {e : ε}
    (hs : Inv s) (h : loop stuck guard body n s = .error e) :
    e = stuck ∨ ∃ s', Inv s' ∧ guard s' = true ∧ body s' = .error e := by
  induction n generalizing s with
  | zero =>
    cases h
    exact .inl rfl
  | succ n ih =>
    cases hguard : guard s with
    | false =>
      rw [loop_done hguard] at h
      exact nomatch h
    | true =>
      simp only [loop, hguard, if_true] at h
      cases hbody : body s with
      | error e' =>
        rw [hbody] at h
        cases h
        exact .inr ⟨s, hs, hguard, hbody⟩
      | ok s₁ =>
        rw [hbody] at h
        exact ih (hstep s s₁ hs hguard hbody) h

/-- A loop fails because it is stuck, or because a turn fails. -/
theorem loop_error_cases {n : ℕ} {s : σ} {e : ε} (h : loop stuck guard body n s = .error e) :
    e = stuck ∨ ∃ s', guard s' = true ∧ body s' = .error e := by
  let Inv : σ → Prop := fun _ => True
  have hstep : ∀ s s', Inv s → guard s = true → body s = .ok s' → Inv s' :=
    fun _ _ _ _ _ => trivial
  rcases loop_error hstep trivial h with hstuck | ⟨s', -, hguard, hbody⟩
  · exact .inl hstuck
  · exact .inr ⟨s', hguard, hbody⟩

/-- A measure that every turn lowers bounds the turns. -/
theorem loop_ends {Inv : σ → Prop} {μ : σ → ℕ}
    (hstep : ∀ s s', Inv s → guard s = true → body s = .ok s' → Inv s' ∧ μ s' < μ s)
    (hbody : ∀ s, Inv s → guard s = true → body s ≠ .error stuck) {n : ℕ} {s : σ} (hs : Inv s)
    (hn : μ s < n) : loop stuck guard body n s ≠ .error stuck := by
  induction n generalizing s with
  | zero => omega
  | succ n ih =>
    cases hguard : guard s with
    | false =>
      rw [loop_done hguard]
      exact nofun
    | true =>
      have hne := hbody s hs hguard
      simp only [loop, hguard, if_true]
      cases hs₁ : body s with
      | error e =>
        rw [hs₁] at hne
        exact hne
      | ok s₁ =>
        obtain ⟨hinv, hless⟩ := hstep s s₁ hs hguard hs₁
        exact ih hinv (by omega)

/-- A loop that ended made its first turn. -/
theorem loop_first {n : ℕ} {s s' : σ} (h : loop stuck guard body n s = .ok s')
    (hguard : guard s = true) :
    ∃ s₁ n', body s = .ok s₁ ∧ loop stuck guard body n' s₁ = .ok s' := by
  cases n with
  | zero => exact nomatch h
  | succ n =>
    simp only [loop, hguard, if_true] at h
    cases hbody : body s with
    | error e =>
      rw [hbody] at h
      exact nomatch h
    | ok s₁ =>
      rw [hbody] at h
      exact ⟨s₁, n, rfl, h⟩

/-- A loop whose body never fails ends at the first state without the guard. -/
theorem loop_ok_iff {f : σ → σ} (hbody : ∀ s, body s = .ok (f s)) {n : ℕ} {s s' : σ} :
    loop stuck guard body n s = .ok s' ↔
      ∃ k < n, (∀ j < k, guard (f^[j] s) = true) ∧ guard (f^[k] s) = false ∧ s' = f^[k] s := by
  induction n generalizing s with
  | zero => simp [loop]
  | succ n ih =>
    cases hguard : guard s with
    | false =>
      rw [loop_done hguard]
      constructor
      · rintro ⟨⟩
        exact ⟨0, n.succ_pos, fun j hj => absurd hj j.not_lt_zero, hguard, rfl⟩
      · rintro ⟨k, -, hbefore, -, rfl⟩
        rcases k with _ | k
        · rfl
        · have hzero := hbefore 0 k.succ_pos
          rw [Function.iterate_zero_apply, hguard] at hzero
          exact nomatch hzero
    | true =>
      rw [loop_turn hguard (hbody s), ih]
      constructor
      · rintro ⟨k, hk, hbefore, hlast, rfl⟩
        refine ⟨k + 1, by omega, fun j hj => ?_, hlast, rfl⟩
        rcases j with _ | j
        · exact hguard
        · exact hbefore j (by omega)
      · rintro ⟨k, hk, hbefore, hlast, rfl⟩
        rcases k with _ | k
        · rw [Function.iterate_zero_apply, hguard] at hlast
          exact nomatch hlast
        · exact ⟨k, by omega, fun j hj => hbefore (j + 1) (by omega), hlast, rfl⟩

end

end LiberaDaq
