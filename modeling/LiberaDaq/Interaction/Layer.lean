import LiberaDaq.Interaction.Program

/-!
# Layers

A component that serves an interface `C` and itself uses an interface `C'` is an implementation
`impl : Impl C A C' A' σ`: each call is carried out on the component's state `σ` by a program over
`C'`. `interp impl p` puts the program `p` on top of the component.

A run of the layered program is a run of `p` in which every call was answered by a run of the
component (`runs_interp`), and what the component guarantees of its answers may be assumed of the
interface of `p` (`wp_interp`).
-/

namespace LiberaDaq.Interaction

/-- An implementation of an interface over another one, with a state of its own. -/
abbrev Impl (C : Type) (A : C → Type) (C' : Type) (A' : C' → Type) (σ : Type) :=
  (c : C) → StateT σ (Prog C' A') (A c)

namespace Prog

variable {C C' : Type} {A : C → Type} {A' : C' → Type} {α β σ : Type}

/-- The program on top of an implementation of its interface. -/
def interp (impl : Impl C A C' A' σ) : Prog C A α → σ → Prog C' A' (α × σ)
  | .pure a, s => Pure.pure (a, s)
  | .call c k, s => impl c s >>= fun r => (k r.1).interp impl r.2

variable {impl : Impl C A C' A' σ}

@[simp] theorem interp_pure (a : α) (s : σ) :
    (Pure.pure a : Prog C A α).interp impl s = Pure.pure (a, s) := rfl

@[simp] theorem interp_call (c : C) (k : A c → Prog C A α) (s : σ) :
    (Prog.call c k).interp impl s = impl c s >>= fun r => (k r.1).interp impl r.2 := rfl

@[simp] theorem interp_ite {P : Prop} [Decidable P] {p q : Prog C A α} {s : σ} :
    (if P then p else q).interp impl s = if P then p.interp impl s else q.interp impl s := by
  split <;> rfl

theorem interp_bind (p : Prog C A α) (f : α → Prog C A β) (s : σ) :
    (p >>= f).interp impl s = p.interp impl s >>= fun r => (f r.1).interp impl r.2 := by
  induction p generalizing s with
  | pure a => rfl
  | call c k ih =>
    simp only [call_bind, interp_call, ih, bind_assoc']

/-- The calls of a program and the answers the implementation gave them, with the run of the
implementation that produced each. -/
inductive Answered (impl : Impl C A C' A' σ) :
    σ → List (Event C A) → List (Event C' A') → σ → Prop
  | nil (s : σ) : Answered impl s [] [] s
  | cons {s s₁ s₂ : σ} {c : C} {x : A c} {tr : List (Event C A)} {t₁ t₂ : List (Event C' A')} :
      (impl c s).Runs t₁ (x, s₁) → Answered impl s₁ tr t₂ s₂ →
      Answered impl s (⟨c, x⟩ :: tr) (t₁ ++ t₂) s₂

@[simp] theorem answered_nil {s s' : σ} {t : List (Event C' A')} :
    Answered impl s [] t s' ↔ t = [] ∧ s' = s := by
  constructor
  · rintro ⟨⟩
    exact ⟨rfl, rfl⟩
  · rintro ⟨rfl, rfl⟩
    exact .nil _

theorem answered_cons {s s' : σ} {c : C} {x : A c} {tr : List (Event C A)}
    {t : List (Event C' A')} : Answered impl s (⟨c, x⟩ :: tr) t s' ↔
      ∃ t₁ t₂ s₁, t = t₁ ++ t₂ ∧ (impl c s).Runs t₁ (x, s₁) ∧ Answered impl s₁ tr t₂ s' := by
  constructor
  · intro h
    cases h with
    | cons h₁ h => exact ⟨_, _, _, rfl, h₁, h⟩
  · rintro ⟨t₁, t₂, s₁, rfl, h₁, h⟩
    exact .cons h₁ h

/-- **The rule of answered calls.** What every call in `G` keeps, a list of such calls keeps. -/
theorem Answered.rule {G : C → Prop} {I : σ → Prop} {s s' : σ} {tr : List (Event C A)}
    {t : List (Event C' A')} (himpl : ∀ c s, G c → I s → (impl c s).Ensures fun r => I r.2)
    (ha : Answered impl s tr t s') (hG : ∀ e ∈ tr, G e.1) (hs : I s) : I s' := by
  induction ha with
  | nil => exact hs
  | @cons s s₁ s₂ c x tr t₁ t₂ h₁ _ ih =>
    obtain ⟨hc, hG⟩ := List.forall_mem_cons.1 hG
    exact ih hG (h₁.of_ensures (himpl c s hc hs))

/-- What the implementation ensures of every answer holds of the calls that it answered. -/
theorem Answered.forall {P : Event C A → Prop} {s s' : σ} {tr : List (Event C A)}
    {t : List (Event C' A')} (ha : Answered impl s tr t s')
    (himpl : ∀ c s, (impl c s).Ensures fun r => P ⟨c, r.1⟩) : ∀ e ∈ tr, P e := by
  induction ha with
  | nil => simp
  | cons h₁ _ ih => exact List.forall_mem_cons.2 ⟨h₁.of_ensures (himpl _ _), ih⟩

/-- **A run of the layered program** is a run of the upper program whose calls the implementation
answered. -/
theorem runs_interp {p : Prog C A α} {s s' : σ} {t : List (Event C' A')} {a : α} :
    (p.interp impl s).Runs t (a, s') ↔ ∃ tr, p.Runs tr a ∧ Answered impl s tr t s' := by
  induction p generalizing s t with
  | pure b =>
    constructor
    · rintro ⟨rfl, h⟩
      obtain ⟨rfl, rfl⟩ := Prod.mk.inj h
      exact ⟨[], ⟨rfl, rfl⟩, .nil _⟩
    · rintro ⟨tr, ⟨rfl, rfl⟩, h⟩
      cases h
      exact ⟨rfl, rfl⟩
  | call c k ih =>
    rw [interp_call, runs_bind]
    constructor
    · rintro ⟨t₁, t₂, ⟨x, s₁⟩, rfl, h₁, h₂⟩
      obtain ⟨tr, hr, ha⟩ := (ih x).1 h₂
      exact ⟨⟨c, x⟩ :: tr, ⟨x, tr, rfl, hr⟩, .cons h₁ ha⟩
    · rintro ⟨tr, ⟨x, tr', rfl, hr⟩, ha⟩
      cases ha with
      | cons h₁ ha => exact ⟨_, _, _, rfl, h₁, (ih x).2 ⟨tr', hr, ha⟩⟩

/-- **The rule of layers.** If from every state in the invariant, and for every call that the upper
interface allows to be answered, the component keeps the invariant and gives an answer that is
allowed, then what holds of the upper program holds of the layered one. -/
theorem wp_interp {ok : (c : C) → A c → Prop} {ok' : (c : C') → A' c → Prop} {I : σ → Prop}
    (himpl : ∀ c s, (∃ x, ok c x) → I s → (impl c s).wp ok' fun r => ok c r.1 ∧ I r.2)
    {p : Prog C A α} {Q : α → Prop} (hp : p.wp ok Q) {s : σ} (hs : I s) :
    (p.interp impl s).wp ok' fun r => Q r.1 ∧ I r.2 := by
  induction p generalizing s with
  | pure a => exact ⟨hp, hs⟩
  | call c k ih =>
    rw [interp_call, wp_bind]
    exact wp_mono (himpl c s hp.1 hs) fun r hr => ih r.1 (hp.2 r.1 hr.1) hr.2

/-- The layered program makes only the calls that the component makes from states in the
invariant. -/
theorem confined_interp {P : C' → Prop} {I : σ → Prop}
    (himpl : ∀ c s, I s → (impl c s).Confined P fun r => I r.2) {p : Prog C A α} {s : σ}
    (hs : I s) : (p.interp impl s).Confined P fun r => I r.2 := by
  induction p generalizing s with
  | pure a => exact hs
  | call c k ih => exact confined_bind.2 (confined_mono (himpl c s hs) fun r hr => ih r.1 hr)

/-! ## Interfaces side by side -/

variable {D : Type} {B : D → Type}

/-- A program over the left one of two interfaces. -/
def liftLeft : Prog C A α → Prog (C ⊕ D) (Answers A B) α
  | .pure a => Pure.pure a
  | .call c k => .call (.inl c) fun x => (k x).liftLeft

/-- A call of the left interface. -/
def leftEvent (e : Event C A) : Event (C ⊕ D) (Answers A B) := ⟨.inl e.1, e.2⟩

theorem leftEvent_injective :
    Function.Injective (leftEvent : Event C A → Event (C ⊕ D) (Answers A B)) := by
  intro e e' h
  obtain ⟨c, x⟩ := e
  obtain ⟨c', x'⟩ := e'
  obtain ⟨hc, hx⟩ := Sigma.mk.inj h
  obtain rfl := Sum.inl.inj hc
  obtain rfl := eq_of_heq hx
  rfl

/-- What holds of a program over the left interface holds of it beside the right one. -/
theorem wp_liftLeft {ok : (c : C ⊕ D) → Answers A B c → Prop} {p : Prog C A α} {Q : α → Prop}
    (h : p.wp (fun c x => ok (.inl c) x) Q) :
    (p.liftLeft : Prog (C ⊕ D) (Answers A B) α).wp ok Q := by
  induction p with
  | pure a => exact h
  | call c k ih => exact ⟨h.1, fun x hx => ih x (h.2 x hx)⟩

/-- A run over the left interface makes calls of the left interface only. -/
theorem runs_liftLeft {p : Prog C A α} {t : List (Event (C ⊕ D) (Answers A B))} {a : α} :
    (p.liftLeft : Prog (C ⊕ D) (Answers A B) α).Runs t a ↔
      ∃ tr, t = tr.map leftEvent ∧ p.Runs tr a := by
  induction p generalizing t with
  | pure b =>
    constructor
    · rintro ⟨rfl, rfl⟩
      exact ⟨[], rfl, rfl, rfl⟩
    · rintro ⟨tr, rfl, rfl, rfl⟩
      exact ⟨rfl, rfl⟩
  | call c k ih =>
    constructor
    · rintro ⟨x, t', rfl, h⟩
      obtain ⟨tr, rfl, hr⟩ := (ih x).1 h
      exact ⟨⟨c, x⟩ :: tr, rfl, x, tr, rfl, hr⟩
    · rintro ⟨tr, rfl, x, tr', rfl, hr⟩
      exact ⟨x, _, rfl, (ih x).2 ⟨tr', rfl, hr⟩⟩

/-- An implementation that passes the calls of a second interface on. -/
def beside (impl : Impl C A C' A' σ) :
    Impl (C ⊕ D) (Answers A B) (C' ⊕ D) (Answers A' B) σ
  | .inl c, s => (impl c s).liftLeft
  | .inr d, s => .call (.inr d) fun x => Pure.pure (x, s)

theorem runs_beside_left {c : C} {s : σ} {t : List (Event (C' ⊕ D) (Answers A' B))}
    {r : A c × σ} : ((beside impl : Impl (C ⊕ D) (Answers A B) (C' ⊕ D) (Answers A' B) σ)
      (.inl c) s).Runs t r ↔ ∃ tr, t = tr.map leftEvent ∧ (impl c s).Runs tr r :=
  runs_liftLeft

theorem runs_beside_right {d : D} {s : σ} {t : List (Event (C' ⊕ D) (Answers A' B))}
    {r : B d × σ} : ((beside impl : Impl (C ⊕ D) (Answers A B) (C' ⊕ D) (Answers A' B) σ)
      (.inr d) s).Runs t r ↔ t = [⟨.inr d, r.1⟩] ∧ r.2 = s := by
  constructor
  · rintro ⟨x, _, rfl, rfl, rfl⟩
    exact ⟨rfl, rfl⟩
  · rintro ⟨rfl, h⟩
    exact ⟨r.1, [], rfl, rfl, Prod.ext rfl h.symm⟩

end Prog

end LiberaDaq.Interaction
