import Mathlib.Control.Monad.Basic
import Mathlib.Tactic.Common

/-!
# Programs over an interface

A program of type `Prog C A α` computes an `α` and may, on the way, make calls `c : C` to an
interface that it does not see; a call `c` is answered by a value of `A c`. A call whose type of
answers is empty never returns.

* `Prog.Runs p tr a`: under the calls and answers listed in `tr`, the program `p` returns `a`;
* `Prog.wp ok p Q`: as long as every answer is one that `ok` allows, `p` never gets stuck and
  returns a value that satisfies `Q`;
* `Prog.Confined P p Q`: whatever the answers, `p` makes only calls in `P` and returns only values
  in `Q`;
* `Prog.exec h p s`: the run of `p` under a deterministic environment `h` with state `s`.

The rules at a call and at a bind are the ones the proofs use; `Runs.of_wp` and `exec_runs`
connect the three.
-/

namespace LiberaDaq.Interaction

/-- A program that computes an `α` through calls `c : C`, answered by values of `A c`. -/
inductive Prog (C : Type) (A : C → Type) (α : Type) : Type
  | pure (a : α)
  | call (c : C) (k : A c → Prog C A α)

/-- A call together with its answer. -/
abbrev Event (C : Type) (A : C → Type) := Σ c : C, A c

/-- The answers of two interfaces side by side. -/
abbrev Answers {C D : Type} (A : C → Type) (B : D → Type) : C ⊕ D → Type
  | .inl c => A c
  | .inr d => B d

/-- An environment that answers deterministically, or not at all. -/
abbrev Handler (C : Type) (A : C → Type) (σ : Type) := (c : C) → σ → Option (A c × σ)

namespace Prog

variable {C : Type} {A : C → Type} {α β γ σ : Type}

/-- Sequencing. -/
def bind : Prog C A α → (α → Prog C A β) → Prog C A β
  | .pure a, f => f a
  | .call c k, f => .call c fun x => (k x).bind f

/-- The program that makes one call and returns its answer. -/
def perform (c : C) : Prog C A (A c) := .call c .pure

instance : Monad (Prog C A) where
  pure := .pure
  bind := bind

@[simp] theorem pure_eq (a : α) : (Prog.pure a : Prog C A α) = Pure.pure a := rfl

@[simp] theorem pure_bind' (a : α) (f : α → Prog C A β) :
    (Pure.pure a : Prog C A α) >>= f = f a := rfl

@[simp] theorem call_bind (c : C) (k : A c → Prog C A α) (f : α → Prog C A β) :
    (Prog.call c k : Prog C A α) >>= f = .call c fun x => k x >>= f := rfl

@[simp] theorem perform_bind (c : C) (f : A c → Prog C A β) :
    (perform c : Prog C A (A c)) >>= f = .call c f := rfl

theorem bind_pure' (p : Prog C A α) : p >>= Pure.pure = p := by
  induction p with
  | pure a => rfl
  | call c k ih => exact congrArg (Prog.call c) (funext ih)

theorem bind_assoc' (p : Prog C A α) (f : α → Prog C A β) (g : β → Prog C A γ) :
    p >>= f >>= g = p >>= fun a => f a >>= g := by
  induction p with
  | pure a => rfl
  | call c k ih => exact congrArg (Prog.call c) (funext ih)

instance : LawfulMonad (Prog C A) :=
  LawfulMonad.mk' _ bind_pure' (fun _ _ => rfl) bind_assoc'

/-! ## Runs -/

/-- Under the calls and answers `tr`, in this order, the program returns `r`. -/
def Runs : Prog C A α → List (Event C A) → α → Prop
  | .pure a, tr, r => tr = [] ∧ a = r
  | .call c k, tr, r => ∃ x tr', tr = ⟨c, x⟩ :: tr' ∧ (k x).Runs tr' r

@[simp] theorem runs_pure {a r : α} {tr : List (Event C A)} :
    (Pure.pure a : Prog C A α).Runs tr r ↔ tr = [] ∧ a = r := Iff.rfl

@[simp] theorem runs_call {c : C} {k : A c → Prog C A α} {tr : List (Event C A)} {r : α} :
    (Prog.call c k).Runs tr r ↔ ∃ x tr', tr = ⟨c, x⟩ :: tr' ∧ (k x).Runs tr' r := Iff.rfl

@[simp] theorem runs_ite {P : Prop} [Decidable P] {p q : Prog C A α} {tr : List (Event C A)}
    {r : α} : (if P then p else q).Runs tr r ↔ if P then p.Runs tr r else q.Runs tr r := by
  split <;> exact Iff.rfl

/-- **A run of a sequence** is a run of its first part followed by a run of the rest. -/
theorem runs_bind {p : Prog C A α} {f : α → Prog C A β} {tr : List (Event C A)} {r : β} :
    (p >>= f).Runs tr r ↔ ∃ t₁ t₂ a, tr = t₁ ++ t₂ ∧ p.Runs t₁ a ∧ (f a).Runs t₂ r := by
  induction p generalizing tr with
  | pure a =>
    constructor
    · exact fun h => ⟨[], tr, a, rfl, ⟨rfl, rfl⟩, h⟩
    · rintro ⟨t₁, t₂, b, rfl, ⟨rfl, rfl⟩, h⟩
      exact h
  | call c k ih =>
    constructor
    · rintro ⟨x, tr', rfl, h⟩
      obtain ⟨t₁, t₂, a, rfl, h₁, h₂⟩ := (ih x).1 h
      exact ⟨⟨c, x⟩ :: t₁, t₂, a, rfl, ⟨x, t₁, rfl, h₁⟩, h₂⟩
    · rintro ⟨t₁, t₂, a, rfl, ⟨x, t, rfl, h₁⟩, h₂⟩
      exact ⟨x, t ++ t₂, rfl, (ih x).2 ⟨t, t₂, a, rfl, h₁, h₂⟩⟩

/-- A run of a program with its result passed on through `f`. -/
theorem runs_bind_pure {p : Prog C A α} {f : α → β} {tr : List (Event C A)} {r : β} :
    (p >>= fun a => Pure.pure (f a)).Runs tr r ↔ ∃ a, p.Runs tr a ∧ f a = r := by
  rw [runs_bind]
  refine ⟨fun h => ?_, fun h => ?_⟩
  · obtain ⟨t₁, _, a, rfl, h, rfl, hr⟩ := h
    exact ⟨a, by rwa [List.append_nil], hr⟩
  · obtain ⟨a, h, hr⟩ := h
    exact ⟨tr, [], a, by rw [List.append_nil], h, rfl, hr⟩

theorem Runs.bind {p : Prog C A α} {f : α → Prog C A β} {t₁ t₂ : List (Event C A)} {a : α} {r : β}
    (h₁ : p.Runs t₁ a) (h₂ : (f a).Runs t₂ r) : (p >>= f).Runs (t₁ ++ t₂) r :=
  runs_bind.2 ⟨t₁, t₂, a, rfl, h₁, h₂⟩

/-- A list of calls and answers begins with at most one run of a program. -/
theorem Runs.prefix_unique {p : Prog C A α} {t₁ t₂ t₁' t₂' : List (Event C A)} {a a' : α}
    (h : p.Runs t₁ a) (h' : p.Runs t₁' a') (ht : t₁ ++ t₂ = t₁' ++ t₂') : t₁ = t₁' ∧ a = a' := by
  induction p generalizing t₁ t₁' with
  | pure b =>
    obtain ⟨rfl, rfl⟩ := h
    obtain ⟨rfl, rfl⟩ := h'
    exact ⟨rfl, rfl⟩
  | call c k ih =>
    obtain ⟨x, u, rfl, hu⟩ := h
    obtain ⟨x', u', rfl, hu'⟩ := h'
    simp only [List.cons_append, List.cons.injEq, Sigma.mk.injEq, heq_eq_eq, true_and] at ht
    obtain ⟨rfl, ht⟩ := ht
    obtain ⟨rfl, rfl⟩ := ih x hu hu' ht
    exact ⟨rfl, rfl⟩

/-! ## Attempts -/

/-- Under the calls and answers `tr` the program returns the value of `r`, or comes to a call that
never returns if there is none. -/
def Ends : Prog C A α → List (Event C A) → Option α → Prop
  | .pure a, tr, r => tr = [] ∧ r = some a
  | .call c k, tr, r =>
    (IsEmpty (A c) ∧ tr = [] ∧ r = none) ∨ ∃ x tr', tr = ⟨c, x⟩ :: tr' ∧ (k x).Ends tr' r

@[simp] theorem ends_pure {a : α} {tr : List (Event C A)} {r : Option α} :
    (Pure.pure a : Prog C A α).Ends tr r ↔ tr = [] ∧ r = some a := Iff.rfl

/-- Under answers that `ok` allows, the program never gets stuck and returns a value in `Q`. -/
def wp (ok : (c : C) → A c → Prop) : Prog C A α → (α → Prop) → Prop
  | .pure a, Q => Q a
  | .call c k, Q => (∃ x, ok c x) ∧ ∀ x, ok c x → (k x).wp ok Q

variable {ok : (c : C) → A c → Prop}

@[simp] theorem wp_pure {a : α} {Q : α → Prop} : (Pure.pure a : Prog C A α).wp ok Q ↔ Q a := Iff.rfl

@[simp] theorem wp_call {c : C} {k : A c → Prog C A α} {Q : α → Prop} :
    (Prog.call c k).wp ok Q ↔ (∃ x, ok c x) ∧ ∀ x, ok c x → (k x).wp ok Q := Iff.rfl

@[simp] theorem wp_ite {P : Prop} [Decidable P] {p q : Prog C A α} {Q : α → Prop} :
    (if P then p else q).wp ok Q ↔ if P then p.wp ok Q else q.wp ok Q := by
  split <;> exact Iff.rfl

theorem wp_mono {p : Prog C A α} {Q Q' : α → Prop} (h : p.wp ok Q) (hQ : ∀ a, Q a → Q' a) :
    p.wp ok Q' := by
  induction p with
  | pure a => exact hQ a h
  | call c k ih => exact ⟨h.1, fun x hx => ih x (h.2 x hx)⟩

@[simp] theorem wp_bind {p : Prog C A α} {f : α → Prog C A β} {Q : β → Prop} :
    (p >>= f).wp ok Q ↔ p.wp ok fun a => (f a).wp ok Q := by
  induction p with
  | pure a => exact Iff.rfl
  | call c k ih => exact and_congr Iff.rfl (forall₂_congr fun x _ => ih x)

/-- A sequence that begins with a call. -/
theorem wp_perform_bind {c : C} {f : A c → Prog C A β} {Q : β → Prop} :
    (perform c >>= f).wp ok Q ↔ (∃ x, ok c x) ∧ ∀ x, ok c x → (f x).wp ok Q := Iff.rfl

/-- What holds by `wp` holds at the end of every run whose answers are allowed. -/
theorem Runs.of_wp {p : Prog C A α} {Q : α → Prop} {tr : List (Event C A)} {a : α}
    (hr : p.Runs tr a) (h : p.wp ok Q) (hok : ∀ e ∈ tr, ok e.1 e.2) : Q a := by
  induction p generalizing tr with
  | pure b =>
    obtain ⟨-, rfl⟩ := hr
    exact h
  | call c k ih =>
    obtain ⟨x, tr', rfl, hr⟩ := hr
    exact ih x hr (h.2 x (hok ⟨c, x⟩ (by simp))) fun e he => hok e (by simp [he])

/-- A program with a `wp` has a run whose answers are allowed. -/
theorem exists_runs_of_wp {p : Prog C A α} {Q : α → Prop} (h : p.wp ok Q) :
    ∃ tr a, p.Runs tr a ∧ (∀ e ∈ tr, ok e.1 e.2) ∧ Q a := by
  induction p with
  | pure a => exact ⟨[], a, ⟨rfl, rfl⟩, by simp, h⟩
  | call c k ih =>
    obtain ⟨⟨x, hx⟩, hk⟩ := h
    obtain ⟨tr, a, hr, htr, ha⟩ := ih x (hk x hx)
    refine ⟨⟨c, x⟩ :: tr, a, ⟨x, tr, rfl, hr⟩, ?_, ha⟩
    rintro e he
    rcases List.mem_cons.1 he with rfl | he
    · exact hx
    · exact htr e he

/-! ## Confinement -/

/-- Whatever the answers are, the program makes only calls in `P` and returns only values in `Q`. -/
def Confined (P : C → Prop) : Prog C A α → (α → Prop) → Prop
  | .pure a, Q => Q a
  | .call c k, Q => P c ∧ ∀ x, (k x).Confined P Q

variable {P : C → Prop}

@[simp] theorem confined_pure {a : α} {Q : α → Prop} :
    (Pure.pure a : Prog C A α).Confined P Q ↔ Q a := Iff.rfl

@[simp] theorem confined_call {c : C} {k : A c → Prog C A α} {Q : α → Prop} :
    (Prog.call c k).Confined P Q ↔ P c ∧ ∀ x, (k x).Confined P Q := Iff.rfl

@[simp] theorem confined_ite {R : Prop} [Decidable R] {p q : Prog C A α} {Q : α → Prop} :
    (if R then p else q).Confined P Q ↔ if R then p.Confined P Q else q.Confined P Q := by
  split <;> exact Iff.rfl

theorem confined_mono {p : Prog C A α} {Q Q' : α → Prop} (h : p.Confined P Q)
    (hQ : ∀ a, Q a → Q' a) : p.Confined P Q' := by
  induction p with
  | pure a => exact hQ a h
  | call c k ih => exact ⟨h.1, fun x => ih x (h.2 x)⟩

@[simp] theorem confined_bind {p : Prog C A α} {f : α → Prog C A β} {Q : β → Prop} :
    (p >>= f).Confined P Q ↔ p.Confined P fun a => (f a).Confined P Q := by
  induction p with
  | pure a => exact Iff.rfl
  | call c k ih => exact and_congr Iff.rfl (forall_congr' fun x => ih x)

/-- A sequence whose first part is confined, where its result does not matter for what follows. -/
theorem confined_seq {p : Prog C A α} {f : α → Prog C A β} {Q : β → Prop}
    (h : p.Confined P fun _ => True) (hf : ∀ a, (f a).Confined P Q) : (p >>= f).Confined P Q :=
  confined_bind.2 (confined_mono h fun a _ => hf a)

/-- A program that makes only calls with answers always returns. -/
theorem Confined.not_ends_none {p : Prog C A α} {Q : α → Prop} {tr : List (Event C A)}
    (h : p.Confined (fun c => Nonempty (A c)) Q) : ¬p.Ends tr none := by
  induction p generalizing tr with
  | pure a => exact fun he => nomatch he.2
  | call c k ih =>
    rintro (⟨hempty, -⟩ | ⟨x, tr', -, he⟩)
    · exact h.1.elim hempty.false
    · exact ih x (h.2 x) he

/-- The calls and the result of a run of a confined program. -/
theorem Runs.of_confined {p : Prog C A α} {Q : α → Prop} {tr : List (Event C A)} {a : α}
    (hr : p.Runs tr a) (h : p.Confined P Q) : (∀ e ∈ tr, P e.1) ∧ Q a := by
  induction p generalizing tr with
  | pure b =>
    obtain ⟨rfl, rfl⟩ := hr
    exact ⟨by simp, h⟩
  | call c k ih =>
    obtain ⟨x, tr', rfl, hr⟩ := hr
    obtain ⟨htr, ha⟩ := ih x hr (h.2 x)
    exact ⟨List.forall_mem_cons.2 ⟨h.1, htr⟩, ha⟩

/-- Whatever the answers are, the program returns only values in `Q`. -/
abbrev Ensures (p : Prog C A α) (Q : α → Prop) : Prop := p.Confined (fun _ => True) Q

theorem ensures_true (p : Prog C A α) : p.Ensures fun _ => True := by
  induction p with
  | pure a => trivial
  | call c k ih => exact ⟨trivial, ih⟩

/-- A program whose result does not matter for what follows. -/
theorem ensures_bind {p : Prog C A α} {f : α → Prog C A β} {Q : β → Prop}
    (h : ∀ a, (f a).Ensures Q) : (p >>= f).Ensures Q :=
  confined_seq (ensures_true p) h

/-- A program is confined by its calls and its values. -/
theorem Ensures.confined {p : Prog C A α} {Q : α → Prop} (hQ : p.Ensures Q)
    (h : p.Confined P fun _ => True) : p.Confined P Q := by
  induction p with
  | pure a => exact hQ
  | call c k ih => exact ⟨h.1, fun x => ih x (hQ.2 x) (h.2 x)⟩

theorem Runs.of_ensures {p : Prog C A α} {Q : α → Prop} {tr : List (Event C A)} {a : α}
    (hr : p.Runs tr a) (h : p.Ensures Q) : Q a := (hr.of_confined h).2

/-- What holds at the end of every run a program ensures. -/
theorem ensures_of_runs {p : Prog C A α} {Q : α → Prop} (h : ∀ tr a, p.Runs tr a → Q a) :
    p.Ensures Q := by
  induction p with
  | pure a => exact h [] a ⟨rfl, rfl⟩
  | call c k ih => exact ⟨trivial, fun x => ih x fun tr a hr => h (⟨c, x⟩ :: tr) a ⟨x, tr, rfl, hr⟩⟩

/-- What a program ensures may be assumed where it goes on. -/
theorem bind_congr_of_ensures {p : Prog C A α} {Q : α → Prop} {f g : α → Prog C A β}
    (h : p.Ensures Q) (hfg : ∀ a, Q a → f a = g a) : p >>= f = p >>= g := by
  induction p with
  | pure a => exact hfg a h
  | call c k ih => exact congrArg (Prog.call c) (funext fun x => ih x (h.2 x))

/-- What a program ensures under any answers may be added to its `wp`. -/
theorem wp_and_ensures {p : Prog C A α} {Q Q' : α → Prop} (h : p.wp ok Q) (h' : p.Ensures Q') :
    p.wp ok fun a => Q a ∧ Q' a := by
  induction p with
  | pure a => exact ⟨h, h'⟩
  | call c k ih => exact ⟨h.1, fun x hx => ih x (h.2 x hx) (h'.2 x)⟩

/-- A program that makes only calls of which the same answers are allowed. -/
theorem wp_congr {ok' : (c : C) → A c → Prop} {p : Prog C A α} {Q R : α → Prop} (h : p.wp ok Q)
    (hp : p.Confined (fun c => ∀ x, ok' c x ↔ ok c x) R) : p.wp ok' Q := by
  induction p with
  | pure a => exact h
  | call c k ih =>
    obtain ⟨⟨x, hx⟩, hk⟩ := h
    exact ⟨⟨x, (hp.1 x).2 hx⟩, fun y hy => ih y (hk y ((hp.1 y).1 hy)) (hp.2 y)⟩

/-! ## Deterministic environments -/

/-- The run under a deterministic environment, with the calls it made; `none` when a call is never
answered. -/
def exec (h : Handler C A σ) : Prog C A α → σ → Option (α × σ × List (Event C A))
  | .pure a, s => some (a, s, [])
  | .call c k, s =>
    match h c s with
    | none => none
    | some (x, s') =>
      match (k x).exec h s' with
      | none => none
      | some (a, s'', tr) => some (a, s'', ⟨c, x⟩ :: tr)

/-- A run under a deterministic environment is a run. -/
theorem exec_runs {h : Handler C A σ} {p : Prog C A α} {s s' : σ} {a : α} {tr : List (Event C A)}
    (he : p.exec h s = some (a, s', tr)) : p.Runs tr a := by
  induction p generalizing s tr with
  | pure b =>
    simp only [exec, Option.some.injEq, Prod.mk.injEq] at he
    exact ⟨he.2.2.symm, he.1⟩
  | call c k ih =>
    simp only [exec] at he
    split at he
    · cases he
    · rename_i x s₁ hx
      split at he
      · cases he
      · rename_i b s₂ tr' hk
        simp only [Option.some.injEq, Prod.mk.injEq] at he
        obtain ⟨rfl, rfl, rfl⟩ := he
        exact ⟨x, tr', rfl, ih x hk⟩

end Prog

end LiberaDaq.Interaction
