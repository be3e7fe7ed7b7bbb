import Mathlib.Data.List.Basic

/-!
# The moves of a machine

A machine is a function `step` that takes it from one state to the next by a move. `Along step P s
ms` says that each of the moves `ms`, made one after the other from the state `s`, keeps to the rule
`P` in the state in which it is made.

Two rules that agree wherever an invariant holds agree along a whole run (`along_iff`), and an
invariant that the moves of a rule keep holds at the end of a run of them (`Along.keeps`).
-/

namespace LiberaDaq.Interaction

variable {σ μ : Type}

/-- Every move keeps to the rule `P` in the state in which it is made. -/
def Along (step : σ → μ → σ) (P : σ → μ → Prop) : σ → List μ → Prop
  | _, [] => True
  | s, m :: ms => P s m ∧ Along step P (step s m) ms

variable {step : σ → μ → σ} {P Q R : σ → μ → Prop} {I : σ → Prop} {s : σ} {ms : List μ}

@[simp] theorem along_nil : Along step P s [] := trivial

@[simp] theorem along_cons {m : μ} :
    Along step P s (m :: ms) ↔ P s m ∧ Along step P (step s m) ms := Iff.rfl

instance decidableAlong [∀ s m, Decidable (P s m)] : ∀ s ms, Decidable (Along step P s ms)
  | _, [] => inferInstanceAs (Decidable True)
  | s, m :: ms =>
    haveI := decidableAlong (step s m) ms
    inferInstanceAs (Decidable (P s m ∧ Along step P (step s m) ms))

theorem along_append {ms' : List μ} :
    Along step P s (ms ++ ms') ↔ Along step P s ms ∧ Along step P (ms.foldl step s) ms' := by
  induction ms generalizing s with
  | nil => simp
  | cons m ms ih => rw [List.cons_append, along_cons, along_cons, ih, List.foldl_cons, and_assoc]

/-- An invariant that the moves of a rule keep. -/
theorem Along.keeps (h : Along step R s ms) (hs : I s)
    (hstep : ∀ s m, I s → R s m → I (step s m)) : I (ms.foldl step s) := by
  induction ms generalizing s with
  | nil => exact hs
  | cons m ms ih => exact ih h.2 (hstep s m hs h.1)

/-- What the moves of a rule do wherever an invariant holds that they keep. -/
theorem Along.of_invariant (h : Along step R s ms) (hs : I s)
    (hP : ∀ s m, I s → R s m → P s m) (hstep : ∀ s m, I s → R s m → I (step s m)) :
    Along step P s ms := by
  induction ms generalizing s with
  | nil => trivial
  | cons m ms ih => exact ⟨hP s m hs h.1, ih h.2 (hstep s m hs h.1)⟩

theorem Along.and (h : Along step P s ms) (h' : Along step Q s ms) :
    Along step (fun s m => P s m ∧ Q s m) s ms := by
  induction ms generalizing s with
  | nil => trivial
  | cons m ms ih => exact ⟨⟨h.1, h'.1⟩, ih h.2 h'.2⟩

/-- Two rules that agree where an invariant holds, which the moves of the second one keep. -/
theorem along_iff (h : Along step R s ms) (hs : I s)
    (hagree : ∀ s m, I s → R s m → (P s m ↔ Q s m))
    (hstep : ∀ s m, I s → R s m → Q s m → I (step s m)) :
    Along step P s ms ↔ Along step Q s ms := by
  induction ms generalizing s with
  | nil => exact Iff.rfl
  | cons m ms ih =>
    have hfirst := hagree s m hs h.1
    constructor
    · rintro ⟨hp, hrest⟩
      have hq := hfirst.1 hp
      exact ⟨hq, (ih h.2 (hstep s m hs h.1 hq)).1 hrest⟩
    · rintro ⟨hq, hrest⟩
      exact ⟨hfirst.2 hq, (ih h.2 (hstep s m hs h.1 hq)).2 hrest⟩

end LiberaDaq.Interaction
