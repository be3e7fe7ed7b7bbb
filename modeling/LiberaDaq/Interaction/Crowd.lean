import LiberaDaq.Interaction.Environment
import Mathlib.Order.Defs.Unbundled
import Mathlib.Logic.Function.Basic

/-!
# Programs side by side

The threads of a crowd run operations over one interface, each a call at a time, in any order. What
the others do between two calls of a thread is all that it has to reckon with:

* `Crowd.Run` is an interleaving, with the operations that have returned in it;
* `Prog.amid rely guar serve p Q` says that `p`, when others change the environment at any moment as
  `rely` allows, itself changes it only as `guar` allows, and that whenever it returns, its result
  and the environment satisfy `Q`;
* `Crowd.Run.rule` puts operations together each of which relies on no more than the others
  guarantee.

`Crowd.play` runs a crowd by a schedule, under deterministic environments.
-/

namespace LiberaDaq.Interaction

variable {ι Op R C α β τ : Type} {A : C → Type}

/-! ## Amid others -/

namespace Prog

variable {rely guar : τ → τ → Prop} {serve : Serves C A τ}

/-- As long as the others change the environment as `rely` allows, the program changes it as `guar`
allows, and what it returns satisfies `Q`, also after further changes by the others. -/
def amid (rely guar : τ → τ → Prop) (serve : Serves C A τ) :
    Prog C A α → (α → τ → Prop) → τ → Prop
  | .pure a, Q, u => ∀ v, rely u v → Q a v
  | .call c k, Q, u =>
    ∀ v x w, rely u v → serve c x v w → guar v w ∧ (k x).amid rely guar serve Q w

variable {Q Q' : α → τ → Prop} {I : τ → Prop} {u v : τ} {p : Prog C A α}

theorem amid_mono (h : p.amid rely guar serve Q u) (hQ : ∀ a u, Q a u → Q' a u) :
    p.amid rely guar serve Q' u := by
  induction p generalizing u with
  | pure a => exact fun v hv => hQ a v (h v hv)
  | call c k ih =>
    intro v x w hv hx
    obtain ⟨hguar, hk⟩ := h v x w hv hx
    exact ⟨hguar, ih x hk⟩

section

variable [IsPreorder τ rely]

/-- What the others do meanwhile is allowed for. -/
theorem amid_rely (h : p.amid rely guar serve Q u) (hv : rely u v) :
    p.amid rely guar serve Q v := by
  cases p with
  | pure a => exact fun w hw => h w (trans_of rely hv hw)
  | call c k => exact fun w x w' hw hx => h w x w' (trans_of rely hv hw) hx

/-- **A sequence amid others.** -/
theorem amid_bind {f : α → Prog C A β} {Q : β → τ → Prop} :
    (p >>= f).amid rely guar serve Q u ↔
      p.amid rely guar serve (fun a v => (f a).amid rely guar serve Q v) u := by
  induction p generalizing u with
  | pure a => exact ⟨fun h v hv => amid_rely h hv, fun h => h u (refl_of rely u)⟩
  | call c k ih =>
    constructor
    · intro h v x w hv hx
      obtain ⟨hguar, hk⟩ := h v x w hv hx
      exact ⟨hguar, (ih x).1 hk⟩
    · intro h v x w hv hx
      obtain ⟨hguar, hk⟩ := h v x w hv hx
      exact ⟨hguar, (ih x).2 hk⟩

/-- A sequence whose first part is known by what it ensures. -/
theorem amid_seq {f : α → Prog C A β} {Q : β → τ → Prop} (h : p.amid rely guar serve Q' u)
    (hf : ∀ a u, Q' a u → (f a).amid rely guar serve Q u) :
    (p >>= f).amid rely guar serve Q u :=
  amid_bind.2 (amid_mono h hf)

end

/-- An assertion that the others cannot upset. -/
def Stable (rely : τ → τ → Prop) (I : τ → Prop) : Prop := ∀ u v, rely u v → I u → I v

theorem Stable.and {J : τ → Prop} (h : Stable rely I) (h' : Stable rely J) :
    Stable rely fun u => I u ∧ J u := fun u v hv hu => ⟨h u v hv hu.1, h' u v hv hu.2⟩

/-- A program that makes calls in `P` makes calls in every larger set. -/
theorem Confined.imp {P P' : C → Prop} {S : α → Prop} (h : p.Confined P S)
    (hP : ∀ c, P c → P' c) : p.Confined P' S := by
  induction p with
  | pure a => exact h
  | call c k ih => exact ⟨hP c h.1, fun x => ih x (h.2 x)⟩

end Prog

/-! ## Crowds -/

/-- A thread is idle, or has an operation under way: it began in an environment, and some of its
program is left. -/
inductive Thread (Op R C : Type) (A : C → Type) (τ : Type)
  | idle
  | busy (op : Op) (before : τ) (rest : Prog C A R)

/-- An operation that has returned. -/
structure Done (ι Op R τ : Type) where
  thread : ι
  op : Op
  before : τ
  result : R
  after : τ

/-- The threads and their environment. -/
structure Crowd (ι Op R C : Type) (A : C → Type) (τ : Type) where
  threads : ι → Thread Op R C A τ
  world : τ

namespace Crowd

/-- All threads are idle. -/
def rest (u : τ) : Crowd ι Op R C A τ := ⟨fun _ => .idle, u⟩

variable [DecidableEq ι]

/-- A thread goes on as `x`, in the environment `u`. -/
def become (s : Crowd ι Op R C A τ) (i : ι) (x : Thread Op R C A τ) (u : τ) :
    Crowd ι Op R C A τ := ⟨Function.update s.threads i x, u⟩

variable (sem : Op → Prog C A R) (serve : ι → Serves C A τ)

/-- A step of one thread, with the operation that returns in it, if one does. -/
inductive Turn (s : Crowd ι Op R C A τ) : List (Done ι Op R τ) → Crowd ι Op R C A τ → Prop
  | begin (i : ι) (op : Op) (h : s.threads i = .idle) :
      Turn s [] (s.become i (.busy op s.world (sem op)) s.world)
  | call (i : ι) (op : Op) (u : τ) (c : C) (k : A c → Prog C A R) (x : A c) (v : τ)
      (h : s.threads i = .busy op u (.call c k)) (hx : serve i c x s.world v) :
      Turn s [] (s.become i (.busy op u (k x)) v)
  | ret (i : ι) (op : Op) (u : τ) (r : R) (h : s.threads i = .busy op u (.pure r)) :
      Turn s [⟨i, op, u, r, s.world⟩] (s.become i .idle s.world)

/-- An interleaving, with the operations that have returned. -/
inductive Run (s : Crowd ι Op R C A τ) : List (Done ι Op R τ) → Crowd ι Op R C A τ → Prop
  | nil : Run s [] s
  | snoc {ds ds' : List (Done ι Op R τ)} {t u : Crowd ι Op R C A τ} (h : Run s ds t)
      (hturn : Turn sem serve t ds' u) : Run s (ds ++ ds') u

variable {sem serve} {rely guar : ι → τ → τ → Prop} {Start : ι → τ → Prop}
  {Law : ι → Op → τ → R → τ → Prop} {s t u : Crowd ι Op R C A τ} {ds : List (Done ι Op R τ)}

/-- What holds of a thread between two steps. -/
def Kept (rely guar : ι → τ → τ → Prop) (serve : ι → Serves C A τ) (Start : ι → τ → Prop)
    (Law : ι → Op → τ → R → τ → Prop) (i : ι) (v : τ) : Thread Op R C A τ → Prop
  | .idle => Start i v
  | .busy op u p => p.amid (rely i) (guar i) (serve i) (fun r w => Law i op u r w ∧ Start i w) v

omit [DecidableEq ι] in
/-- A thread that makes no step is only affected by what it relies on. -/
theorem Kept.later [∀ i, IsPreorder τ (rely i)] {i : ι} {v w : τ} {x : Thread Op R C A τ}
    (h : Kept rely guar serve Start Law i v x) (hstart : Prog.Stable (rely i) (Start i))
    (hw : rely i v w) : Kept rely guar serve Start Law i w x := by
  cases x with
  | idle => exact hstart v w hw h
  | busy op u p => exact Prog.amid_rely h hw

/-- The threads after a step of one of them. -/
theorem kept_become [∀ i, IsPreorder τ (rely i)] {i : ι} {x : Thread Op R C A τ} {v : τ}
    (hstart : ∀ i, Prog.Stable (rely i) (Start i))
    (hothers : ∀ j, j ≠ i → rely j s.world v)
    (h : ∀ j, Kept rely guar serve Start Law j s.world (s.threads j))
    (hx : Kept rely guar serve Start Law i v x) (j : ι) :
    Kept rely guar serve Start Law j v ((s.become i x v).threads j) := by
  by_cases hj : j = i
  · subst hj
    simpa [become] using hx
  · have hsame : (s.become i x v).threads j = s.threads j := Function.update_of_ne hj _ _
    rw [hsame]
    exact (h j).later (hstart j) (hothers j hj)

/-- **The rule of crowds.** Every operation changes the environment only as the other threads rely on
and as keeps an invariant, and in such company it satisfies its law. Then in every interleaving that
begins with all threads idle the operations that return satisfy their laws, and the invariant is
kept. -/
theorem Run.rule [∀ i, IsPreorder τ (rely i)] (hstart : ∀ i, Prog.Stable (rely i) (Start i))
    (hguar : ∀ i j u v, i ≠ j → guar i u v → rely j u v) {J : τ → Prop}
    (hJ : ∀ i u v, guar i u v → J u → J v)
    (hop : ∀ i op u, Start i u → (sem op).amid (rely i) (guar i) (serve i)
      (fun r v => Law i op u r v ∧ Start i v) u)
    {v : τ} (hv : ∀ i, Start i v) (hinv : J v) (h : Run sem serve (rest v) ds t) :
    (∀ d ∈ ds, Law d.thread d.op d.before d.result d.after) ∧ J t.world ∧
      ∀ i, Kept rely guar serve Start Law i t.world (t.threads i) := by
  induction h with
  | nil => exact ⟨by simp, hinv, hv⟩
  | @snoc ds ds' t u _ hturn ih =>
    obtain ⟨hlaw, hinv, hkept⟩ := ih
    have hself (j : ι) : rely j t.world t.world := refl_of (rely j) t.world
    cases hturn with
    | begin i op hidle =>
      refine ⟨by simpa using hlaw, hinv, kept_become hstart (fun j _ => hself j) hkept ?_⟩
      have hi := hkept i
      rw [hidle] at hi
      exact hop i op t.world hi
    | call i op before c k x v hbusy hx =>
      have hi := hkept i
      rw [hbusy] at hi
      obtain ⟨hstep, hk⟩ := hi t.world x v (hself i) hx
      refine ⟨by simpa using hlaw, hJ i t.world v hstep hinv,
        kept_become hstart (fun j hj => ?_) hkept hk⟩
      exact hguar i j t.world v hj.symm hstep
    | ret i op before r hbusy =>
      have hi := hkept i
      rw [hbusy] at hi
      obtain ⟨hreturned, hidle⟩ := hi t.world (hself i)
      refine ⟨?_, hinv, kept_become hstart (fun j _ => hself j) hkept hidle⟩
      exact List.forall_mem_append.2 ⟨hlaw, List.forall_mem_singleton.2 hreturned⟩

/-! ## Schedules -/

/-- What a schedule says next: a thread begins an operation, or goes on. -/
inductive Slot (ι Op : Type)
  | begin (i : ι) (op : Op)
  | go (i : ι)

variable (sem) (handler : ι → Handler C A τ)

/-- The step that a schedule asks for, if it can be made. -/
def advance (s : Crowd ι Op R C A τ) : Slot ι Op →
    Option (List (Done ι Op R τ) × Crowd ι Op R C A τ)
  | .begin i op =>
    match s.threads i with
    | .idle => some ([], s.become i (.busy op s.world (sem op)) s.world)
    | .busy _ _ _ => none
  | .go i =>
    match s.threads i with
    | .idle => none
    | .busy op u (.pure r) => some ([⟨i, op, u, r, s.world⟩], s.become i .idle s.world)
    | .busy op u (.call c k) =>
      (handler i c s.world).map fun r => ([], s.become i (.busy op u (k r.1)) r.2)

/-- A crowd by a schedule, after the operations `ds` have returned. -/
def play : List (Slot ι Op) → List (Done ι Op R τ) → Crowd ι Op R C A τ →
    Option (List (Done ι Op R τ) × Crowd ι Op R C A τ)
  | [], ds, s => some (ds, s)
  | m :: ms, ds, s => (s.advance sem handler m).bind fun r => play ms (ds ++ r.1) r.2

variable {sem handler}

theorem advance_turn (hserve : ∀ i c u r, handler i c u = some r → serve i c r.1 u r.2)
    {m : Slot ι Op} {r : List (Done ι Op R τ) × Crowd ι Op R C A τ}
    (h : s.advance sem handler m = some r) : Turn sem serve s r.1 r.2 := by
  cases m with
  | begin i op =>
    simp only [advance] at h
    split at h
    · next hidle =>
      obtain rfl := Option.some.inj h
      exact .begin i op hidle
    · cases h
  | go i =>
    simp only [advance] at h
    split at h
    · cases h
    · next op u r' hbusy =>
      obtain rfl := Option.some.inj h
      exact .ret i op u r' hbusy
    · next op u c k hbusy =>
      obtain ⟨r', hr', rfl⟩ := Option.map_eq_some_iff.1 h
      exact .call i op u c k r'.1 r'.2 hbusy (hserve i c s.world r' hr')

/-- What was played is an interleaving. -/
theorem play_run (hserve : ∀ i c u r, handler i c u = some r → serve i c r.1 u r.2)
    {ms : List (Slot ι Op)} {r : List (Done ι Op R τ) × Crowd ι Op R C A τ}
    (hs : Run sem serve s ds t) (h : play sem handler ms ds t = some r) :
    Run sem serve s r.1 r.2 := by
  induction ms generalizing ds t with
  | nil =>
    obtain rfl := Option.some.inj h
    exact hs
  | cons m ms ih =>
    obtain ⟨r', hr', h⟩ := Option.bind_eq_some_iff.1 h
    exact ih (hs.snoc (advance_turn hserve hr')) h

end Crowd

end LiberaDaq.Interaction
