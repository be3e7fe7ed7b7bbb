import LiberaDaq.Interaction.History

/-!
# Environments with a state

What the other side of an interface answers may depend on what it was asked before: it has a state
of its own. `serve c x u u'` says that an environment in the state `u` can answer the call `c` by
`x` and is then in the state `u'`.

* `Prog.Served serve tr u u'`: the environment gave the answers of `tr`, in this order;
* `Prog.wlp serve p Q u`: whenever `p` returns under an environment in `u`, its result and the state
  of the environment satisfy `Q`.

`Runs.of_wlp` connects the two, and `wlp_frame` is the rule for programs that make only calls which
leave the environment alone. A `Joint` history alternates between the operations of a component
and steps that the environment takes by itself; `Joint.rule` is the rule of its proofs. In an
`Interleaved` history the steps from outside may reach the state of the component as well, as a
handler of signals does. An environment that only watches the calls is a `watch`, and one that also
writes them down is a `record`.
-/

namespace LiberaDaq.Interaction

/-- An environment with a state: the answers it can give, and the states they lead to. -/
abbrev Serves (C : Type) (A : C → Type) (τ : Type) := (c : C) → A c → τ → τ → Prop

/-- The environment that keeps account of the events and answers anything. -/
def watch {C : Type} {A : C → Type} {τ : Type} (f : Event C A → τ → τ) : Serves C A τ :=
  fun c x u u' => u' = f ⟨c, x⟩ u

/-- The environment that also writes down the events. -/
def record {C : Type} {A : C → Type} {τ : Type} (serve : Serves C A τ) :
    Serves C A (τ × List (Event C A)) :=
  fun c x v v' => serve c x v.1 v'.1 ∧ v'.2 = v.2 ++ [⟨c, x⟩]

/-- The environment without a state that gives any answer that `ok` allows. -/
def allowing {C : Type} {A : C → Type} (ok : (c : C) → A c → Prop) : Serves C A Unit :=
  fun c x _ _ => ok c x

namespace Prog

variable {C : Type} {A : C → Type} {α β τ : Type} {serve : Serves C A τ}

/-- The environment gave the answers of the events, one after the other. -/
def Served (serve : Serves C A τ) : List (Event C A) → τ → τ → Prop
  | [], u, u' => u' = u
  | e :: tr, u, u' => ∃ u₁, serve e.1 e.2 u u₁ ∧ Served serve tr u₁ u'

/-- What a watching environment made of the events. -/
theorem served_watch {f : Event C A → τ → τ} {tr : List (Event C A)} {u u' : τ} :
    Served (watch f) tr u u' ↔ u' = tr.foldl (fun v e => f e v) u := by
  induction tr generalizing u with
  | nil => exact Iff.rfl
  | cons e tr ih => simp [Served, watch, ih]

/-- The answers that an environment without a state gave. -/
theorem served_allowing {ok : (c : C) → A c → Prop} {tr : List (Event C A)}
    (h : ∀ e ∈ tr, ok e.1 e.2) : Served (allowing ok) tr () () := by
  induction tr with
  | nil => rfl
  | cons e tr ih =>
    exact ⟨(), h e List.mem_cons_self, ih fun e' he' => h e' (List.mem_cons_of_mem e he')⟩

/-- What a recording environment wrote down. -/
theorem Served.record {tr : List (Event C A)} {u u' : τ} (h : Served serve tr u u')
    (t : List (Event C A)) : Served (record serve) tr (u, t) (u', t ++ tr) := by
  induction tr generalizing u t with
  | nil =>
    obtain rfl : u' = u := h
    simp [Served]
  | cons e tr ih =>
    obtain ⟨u₁, hx, h⟩ := h
    have hrest := ih h (t ++ [e])
    rw [List.append_assoc] at hrest
    exact ⟨(u₁, t ++ [e]), ⟨hx, rfl⟩, hrest⟩

/-- The environment gave only answers in `P`. -/
theorem Served.and {P : Event C A → Prop} {tr : List (Event C A)} {u u' : τ}
    (h : Served serve tr u u') (hP : ∀ e ∈ tr, P e) :
    Served (fun c x v v' => serve c x v v' ∧ P ⟨c, x⟩) tr u u' := by
  induction tr generalizing u with
  | nil => exact h
  | cons e tr ih =>
    obtain ⟨u₁, hx, h⟩ := h
    exact ⟨u₁, ⟨hx, hP e List.mem_cons_self⟩, ih h fun e' he' => hP e' (List.mem_cons_of_mem _ he')⟩

/-- The events that an environment answers only so. -/
theorem Served.forall {P : Event C A → Prop} {tr : List (Event C A)} {u u' : τ}
    (h : Served (fun c x _ _ => P ⟨c, x⟩) tr u u') : ∀ e ∈ tr, P e := by
  induction tr generalizing u with
  | nil => simp
  | cons e tr ih =>
    obtain ⟨u₁, he, h⟩ := h
    exact List.forall_mem_cons.2 ⟨he, ih h⟩

/-- The run under a deterministic environment that answers as `serve` allows. -/
theorem exec_served {h : Handler C A τ} (hh : ∀ c u x u', h c u = some (x, u') → serve c x u u')
    {p : Prog C A α} {u u' : τ} {a : α} {tr : List (Event C A)}
    (he : p.exec h u = some (a, u', tr)) : Served serve tr u u' := by
  induction p generalizing u tr with
  | pure b =>
    simp only [exec, Option.some.injEq, Prod.mk.injEq] at he
    obtain ⟨-, rfl, rfl⟩ := he
    rfl
  | call c k ih =>
    simp only [exec] at he
    split at he
    · cases he
    · rename_i x u₁ hx
      split at he
      · cases he
      · rename_i b u₂ tr' hk
        simp only [Option.some.injEq, Prod.mk.injEq] at he
        obtain ⟨rfl, rfl, rfl⟩ := he
        exact ⟨u₁, hh c u x u₁ hx, ih x hk⟩

/-! ## Weakest liberal preconditions -/

/-- Whenever the program returns, its result and the state of the environment satisfy `Q`. -/
def wlp (serve : Serves C A τ) : Prog C A α → (α → τ → Prop) → τ → Prop
  | .pure a, Q, u => Q a u
  | .call c k, Q, u => ∀ x u', serve c x u u' → (k x).wlp serve Q u'

variable {Q Q' : α → τ → Prop} {u u' : τ} {p : Prog C A α}

@[simp] theorem wlp_pure {a : α} : (Pure.pure a : Prog C A α).wlp serve Q u ↔ Q a u := Iff.rfl

@[simp] theorem wlp_call {c : C} {k : A c → Prog C A α} : (Prog.call c k).wlp serve Q u ↔
    ∀ x u', serve c x u u' → (k x).wlp serve Q u' := Iff.rfl

@[simp] theorem wlp_perform {c : C} {Q : A c → τ → Prop} :
    (perform c : Prog C A (A c)).wlp serve Q u ↔ ∀ x u', serve c x u u' → Q x u' := Iff.rfl

theorem wlp_mono (h : p.wlp serve Q u) (hQ : ∀ a u, Q a u → Q' a u) : p.wlp serve Q' u := by
  induction p generalizing u with
  | pure a => exact hQ a u h
  | call c k ih => exact fun x u' hx => ih x (h x u' hx)

@[simp] theorem wlp_bind {f : α → Prog C A β} {Q : β → τ → Prop} :
    (p >>= f).wlp serve Q u ↔ p.wlp serve (fun a u => (f a).wlp serve Q u) u := by
  induction p generalizing u with
  | pure a => exact Iff.rfl
  | call c k ih => exact forall₃_congr fun x u' _ => ih x

/-- A sequence that begins with a call. -/
theorem wlp_perform_bind {c : C} {f : A c → Prog C A β} {Q : β → τ → Prop} :
    (perform c >>= f).wlp serve Q u ↔ ∀ x u', serve c x u u' → (f x).wlp serve Q u' := Iff.rfl

/-- A sequence whose first part is known by what it ensures. -/
theorem wlp_seq {f : α → Prog C A β} {Q : β → τ → Prop} (h : p.wlp serve Q' u)
    (hf : ∀ a u, Q' a u → (f a).wlp serve Q u) : (p >>= f).wlp serve Q u :=
  wlp_bind.2 (wlp_mono h hf)

theorem wlp_and (h : p.wlp serve Q u) (h' : p.wlp serve Q' u) :
    p.wlp serve (fun a u => Q a u ∧ Q' a u) u := by
  induction p generalizing u with
  | pure a => exact ⟨h, h'⟩
  | call c k ih => exact fun x u' hx => ih x (h x u' hx) (h' x u' hx)

/-- A program that makes only calls which keep an invariant of the environment keeps it. -/
theorem wlp_keep {P : C → Prop} {R : α → Prop} {I : τ → Prop} (h : p.Confined P R)
    (hserve : ∀ c x v v', P c → serve c x v v' → I v → I v') (hu : I u) :
    p.wlp serve (fun a v => R a ∧ I v) u := by
  induction p generalizing u with
  | pure a => exact ⟨h, hu⟩
  | call c k ih => exact fun x u' hx => ih x (h.2 x) (hserve c x u u' h.1 hx hu)

/-- **The frame rule.** A program that makes only calls which leave the environment alone leaves it
alone, and its result is as it is under any answers. -/
theorem wlp_frame {P : C → Prop} {R : α → Prop} (h : p.Confined P R)
    (hserve : ∀ c x v v', P c → serve c x v v' → v' = v) :
    p.wlp serve (fun a v => R a ∧ v = u) u :=
  wlp_keep h (fun c x v v' hc hx hv => (hserve c x v v' hc hx).trans hv) rfl

/-- What a program ensures under any answers holds in particular under those of an environment. -/
theorem wlp_of_ensures {R : α → Prop} (h : p.Ensures R) : p.wlp serve (fun a _ => R a) u := by
  induction p generalizing u with
  | pure a => exact h
  | call c k ih => exact fun x u' _ => ih x (h.2 x)

/-- What holds under an environment holds under one that also writes down the events. -/
theorem wlp_record {t : List (Event C A)} (h : p.wlp serve Q u) :
    p.wlp (record serve) (fun a v => Q a v.1) (u, t) := by
  induction p generalizing u t with
  | pure a => exact h
  | call c k ih =>
    rintro x ⟨u', t'⟩ ⟨hx, -⟩
    exact ih x (h x u' hx)

/-- What was written down remains. -/
theorem wlp_record_mem {e : Event C A} {v : τ × List (Event C A)} (he : e ∈ v.2) :
    p.wlp (record serve) (fun _ v' => e ∈ v'.2) v := by
  induction p generalizing v with
  | pure a => exact he
  | call c k ih =>
    rintro x ⟨u', t'⟩ ⟨-, rfl⟩
    exact ih x (List.mem_append_left _ he)

/-- What holds under an environment holds under one that gives fewer answers. -/
theorem wlp_of_serves {serve' : Serves C A τ} (hs : ∀ c x v v', serve' c x v v' → serve c x v v')
    (h : p.wlp serve Q u) : p.wlp serve' Q u := by
  induction p generalizing u with
  | pure a => exact h
  | call c k ih => exact fun x u' hx => ih x (h x u' (hs c x u u' hx))

/-- A program that makes only calls which the environment answers has a run. -/
theorem exists_served {P : C → Prop} {R : α → Prop} (h : p.Confined P R)
    (hserve : ∀ c v, P c → ∃ x v', serve c x v v') (u : τ) :
    ∃ tr a u', p.Runs tr a ∧ Served serve tr u u' := by
  induction p generalizing u with
  | pure a => exact ⟨[], a, u, ⟨rfl, rfl⟩, rfl⟩
  | call c k ih =>
    obtain ⟨x, v, hx⟩ := hserve c u h.1
    obtain ⟨tr, a, u', hr, hs⟩ := ih x (h.2 x) v
    exact ⟨⟨c, x⟩ :: tr, a, u', ⟨x, tr, rfl, hr⟩, v, hx, hs⟩

/-- **What holds by `wlp` holds at the end of every run** that the environment served. -/
theorem Runs.of_wlp {tr : List (Event C A)} {a : α} (hr : p.Runs tr a)
    (hs : Served serve tr u u') (h : p.wlp serve Q u) : Q a u' := by
  induction p generalizing tr u with
  | pure b =>
    obtain ⟨rfl, rfl⟩ := hr
    obtain rfl : u' = u := hs
    exact h
  | call c k ih =>
    obtain ⟨x, tr', rfl, hr⟩ := hr
    obtain ⟨u₁, hx, hs⟩ := hs
    exact ih x hr hs (h x u₁ hx)

/-! ## Runs with chosen answers -/

/-- The environment can serve the program so that its result and the state satisfy `Q`. -/
def may (serve : Serves C A τ) : Prog C A α → (α → τ → Prop) → τ → Prop
  | .pure a, Q, u => Q a u
  | .call c k, Q, u => ∃ x u', serve c x u u' ∧ (k x).may serve Q u'

@[simp] theorem may_pure {a : α} : (Pure.pure a : Prog C A α).may serve Q u ↔ Q a u := Iff.rfl

@[simp] theorem may_bind {f : α → Prog C A β} {Q : β → τ → Prop} :
    (p >>= f).may serve Q u ↔ p.may serve (fun a u => (f a).may serve Q u) u := by
  induction p generalizing u with
  | pure a => exact Iff.rfl
  | call c k ih => exact exists₂_congr fun x u' => and_congr_right fun _ => ih x

theorem may_mono (h : p.may serve Q u) (hQ : ∀ a u, Q a u → Q' a u) : p.may serve Q' u := by
  induction p generalizing u with
  | pure a => exact hQ a u h
  | call c k ih =>
    obtain ⟨x, u', hx, hk⟩ := h
    exact ⟨x, u', hx, ih x hk⟩

/-- What holds by `may` holds at the end of a run. -/
theorem exists_run_of_may (h : p.may serve Q u) :
    ∃ tr a u', p.Runs tr a ∧ Served serve tr u u' ∧ Q a u' := by
  induction p generalizing u with
  | pure a => exact ⟨[], a, u, ⟨rfl, rfl⟩, rfl, h⟩
  | call c k ih =>
    obtain ⟨x, v, hx, hk⟩ := h
    obtain ⟨tr, a, u', hr, hs, hQ⟩ := ih x hk
    exact ⟨⟨c, x⟩ :: tr, a, u', ⟨x, tr, rfl, hr⟩, ⟨v, hx, hs⟩, hQ⟩

/-- The environment of two interfaces that serves the left one; the calls of the right one leave it
alone. -/
def servesLeft {D : Type} {B : D → Type} (serve : Serves C A τ) : Serves (C ⊕ D) (Answers A B) τ
  | .inl c, x, u, u' => serve c x u u'
  | .inr _, _, u, u' => u' = u

theorem wlp_liftLeft {D : Type} {B : D → Type} :
    (p.liftLeft : Prog (C ⊕ D) (Answers A B) α).wlp (servesLeft serve) Q u ↔ p.wlp serve Q u := by
  induction p generalizing u with
  | pure a => exact Iff.rfl
  | call c k ih => exact forall₃_congr fun x u' _ => ih x

theorem served_leftEvent {D : Type} {B : D → Type} {tr : List (Event C A)} :
    Served (servesLeft serve) (tr.map (leftEvent (D := D) (B := B))) u u' ↔
      Served serve tr u u' := by
  induction tr generalizing u with
  | nil => exact Iff.rfl
  | cons e tr ih => exact exists_congr fun u₁ => and_congr_right fun _ => ih

end Prog

/-- The calls of a history under a deterministic environment, where it gives only answers in `P`. -/
theorem execAll_forall {Op C : Type} {A : C → Type} {R σ τ : Type} {h : Handler C A τ}
    {sem : Op → σ → Prog C A (R × σ)} {P : Event C A → Prop}
    (hh : ∀ c u x u', h c u = some (x, u') → P ⟨c, x⟩) {ops : List Op} {s : σ} {u : τ}
    {ms : List (Move Op R σ (Event C A))} (he : execAll h sem ops s u = some ms) :
    ∀ m ∈ ms, ∀ e ∈ m.events, P e := by
  induction ops generalizing s u ms with
  | nil =>
    obtain rfl : [] = ms := Option.some.inj he
    simp
  | cons op ops ih =>
    simp only [execAll] at he
    split at he
    · cases he
    · rename_i r s₁ u₁ tr hx
      obtain ⟨ms', hms, rfl⟩ := Option.map_eq_some_iff.1 he
      have hs : Prog.Served (fun c x _ _ => P ⟨c, x⟩) tr u u₁ := Prog.exec_served hh hx
      exact List.forall_mem_cons.2 ⟨hs.forall, ih hms⟩

/-! ## Joint histories -/

section

variable {Op C : Type} {A : C → Type} {R σ τ : Type}

/-- The move is a run of its operation that the environment served. -/
structure Move.ServedBy (sem : Op → σ → Prog C A (R × σ)) (serve : Serves C A τ)
    (m : Move Op R (σ × τ) (Event C A)) : Prop where
  runs : (sem m.op m.before.1).Runs m.events (m.result, m.after.1)
  served : Prog.Served serve m.events m.before.2 m.after.2

theorem Move.ServedBy.of_wlp {sem : Op → σ → Prog C A (R × σ)} {serve : Serves C A τ}
    {m : Move Op R (σ × τ) (Event C A)} (hm : m.ServedBy sem serve) {Q : R × σ → τ → Prop}
    (h : (sem m.op m.before.1).wlp serve Q m.before.2) : Q (m.result, m.after.1) m.after.2 :=
  hm.runs.of_wlp hm.served h

/-- As `of_wlp`, with the events of the move at hand. -/
theorem Move.ServedBy.of_wlp_record {sem : Op → σ → Prog C A (R × σ)} {serve : Serves C A τ}
    {m : Move Op R (σ × τ) (Event C A)} (hm : m.ServedBy sem serve)
    {Q : R × σ → τ × List (Event C A) → Prop}
    (h : (sem m.op m.before.1).wlp (record serve) Q (m.before.2, [])) :
    Q (m.result, m.after.1) (m.after.2, m.events) :=
  hm.runs.of_wlp (hm.served.record []) h

/-- The operations of a component, served by an environment that also takes steps of its own. -/
inductive Joint (sem : Op → σ → Prog C A (R × σ)) (serve : Serves C A τ) (drift : τ → τ → Prop) :
    σ × τ → List (Move Op R (σ × τ) (Event C A)) → σ × τ → Prop
  | nil (w : σ × τ) : Joint sem serve drift w [] w
  | move {w : σ × τ} {ms : List (Move Op R (σ × τ) (Event C A))}
      {m : Move Op R (σ × τ) (Event C A)} :
      Joint sem serve drift w ms m.before → m.ServedBy sem serve →
      Joint sem serve drift w (ms ++ [m]) m.after
  | drift {w : σ × τ} {ms : List (Move Op R (σ × τ) (Event C A))} {s : σ} {u u' : τ} :
      Joint sem serve drift w ms (s, u) → drift u u' → Joint sem serve drift w ms (s, u')

variable {sem : Op → σ → Prog C A (R × σ)} {serve : Serves C A τ} {drift : τ → τ → Prop}
  {w w' : σ × τ} {ms : List (Move Op R (σ × τ) (Event C A))}

/-- A joint history, continued under a deterministic environment. -/
theorem Joint.exec {h : Handler C A τ} (hh : ∀ c u x u', h c u = some (x, u') → serve c x u u')
    {s s' : σ} {u u' : τ} {r : R} {tr : List (Event C A)}
    (hw : Joint sem serve drift w ms (s, u)) (op : Op)
    (he : (sem op s).exec h u = some ((r, s'), u', tr)) :
    Joint sem serve drift w (ms ++ [⟨op, (s, u), tr, r, (s', u')⟩]) (s', u') :=
  Joint.move (m := ⟨op, (s, u), tr, r, (s', u')⟩) hw
    ⟨Prog.exec_runs he, Prog.exec_served hh he⟩

/-- **The rule of joint histories.** If every move from the invariant `I` that meets `G` ends in the
invariant and has the property `P`, and the steps of the environment keep the invariant, then in
every history from the invariant whose moves meet `G`, all moves have the property, and the history
ends in the invariant. -/
theorem Joint.rule {I : σ × τ → Prop} {G P : Move Op R (σ × τ) (Event C A) → Prop}
    (hmove : ∀ m, m.ServedBy sem serve → I m.before → G m → P m ∧ I m.after)
    (hdrift : ∀ s u u', I (s, u) → drift u u' → I (s, u'))
    (h : Joint sem serve drift w ms w') (hw : I w) (hG : ∀ m ∈ ms, G m) :
    (∀ m ∈ ms, P m) ∧ I w' := by
  induction h with
  | nil => exact ⟨by simp, hw⟩
  | @move ms m _ hm ih =>
    obtain ⟨hP, hI⟩ := ih fun m' hm' => hG m' (by simp [hm'])
    obtain ⟨hPm, hI'⟩ := hmove m hm hI (hG m (by simp))
    refine ⟨fun m' hm' => ?_, hI'⟩
    rcases List.mem_append.1 hm' with hm' | hm'
    · exact hP m' hm'
    · obtain rfl := List.mem_singleton.1 hm'
      exact hPm
  | drift _ hd ih =>
    obtain ⟨hP, hI⟩ := ih hG
    exact ⟨hP, hdrift _ _ _ hI hd⟩

/-- **The rule of joint histories, exactly.** If a move from the invariant ends in the invariant
exactly when it meets `G`, and the steps of the environment keep the invariant, then a history from
the invariant stays in it after every move exactly when all its moves meet `G`. -/
theorem Joint.rule_iff {I : σ × τ → Prop} {G : Move Op R (σ × τ) (Event C A) → Prop}
    (hmove : ∀ m, m.ServedBy sem serve → I m.before → (G m ↔ I m.after))
    (hdrift : ∀ s u u', I (s, u) → drift u u' → I (s, u'))
    (h : Joint sem serve drift w ms w') (hw : I w) :
    ((∀ m ∈ ms, G m) ↔ ∀ m ∈ ms, I m.after) ∧ ((∀ m ∈ ms, I m.after) → I w') := by
  induction h with
  | nil => simp [hw]
  | @move ms m _ hm ih =>
    obtain ⟨hiff, hend⟩ := ih
    simp only [List.forall_mem_append, List.forall_mem_singleton]
    refine ⟨⟨fun ⟨hG, hGm⟩ => ?_, fun ⟨hI, hIm⟩ => ?_⟩, fun h => h.2⟩
    · exact ⟨hiff.1 hG, (hmove m hm (hend (hiff.1 hG))).1 hGm⟩
    · exact ⟨hiff.2 hI, (hmove m hm (hend hI)).2 hIm⟩
  | drift _ hd ih => exact ⟨ih.1, fun h => hdrift _ _ _ (ih.2 h) hd⟩

/-- **The rule of joint histories with a past.** As `rule`, where the invariant and the property may
speak of the moves made before. -/
theorem Joint.rule_past {I : List (Move Op R (σ × τ) (Event C A)) → σ × τ → Prop}
    {P : List (Move Op R (σ × τ) (Event C A)) → Move Op R (σ × τ) (Event C A) → Prop}
    (hmove : ∀ ms m, m.ServedBy sem serve → I ms m.before → P ms m ∧ I (ms ++ [m]) m.after)
    (hdrift : ∀ ms s u u', I ms (s, u) → drift u u' → I ms (s, u'))
    (h : Joint sem serve drift w ms w') (hw : I [] w) :
    (∀ ms₁ m ms₂, ms = ms₁ ++ m :: ms₂ → P ms₁ m) ∧ I ms w' := by
  induction h with
  | nil => exact ⟨by simp, hw⟩
  | @move ms m _ hm ih =>
    obtain ⟨hP, hI⟩ := ih
    obtain ⟨hPm, hI'⟩ := hmove ms m hm hI
    refine ⟨fun ms₁ m' ms₂ he => ?_, hI'⟩
    rcases List.eq_nil_or_concat ms₂ with rfl | ⟨ms₃, m₃, rfl⟩
    · obtain ⟨rfl, hlast⟩ := List.append_inj' he rfl
      obtain rfl := (List.cons.inj hlast).1
      exact hPm
    · rw [List.concat_eq_append, ← List.cons_append, ← List.append_assoc] at he
      exact hP ms₁ m' ms₃ (List.append_inj' he rfl).1
  | drift _ hd ih => exact ⟨ih.1, hdrift _ _ _ _ ih.2 hd⟩

/-! ## Interleaved histories -/

/-- What happens in an interleaved history: a move of the component, or a step from outside. -/
inductive Occurrence (Op R σ τ E : Type)
  | move (m : Move Op R (σ × τ) E)
  | outside (before after : σ × τ)

/-- The operations of a component, between steps from outside that may change its state and that of
the environment. -/
inductive Interleaved (sem : Op → σ → Prog C A (R × σ)) (serve : Serves C A τ)
    (outside : σ × τ → σ × τ → Prop) :
    σ × τ → List (Occurrence Op R σ τ (Event C A)) → σ × τ → Prop
  | nil (w : σ × τ) : Interleaved sem serve outside w [] w
  | move {w : σ × τ} {os : List (Occurrence Op R σ τ (Event C A))}
      {m : Move Op R (σ × τ) (Event C A)} :
      Interleaved sem serve outside w os m.before → m.ServedBy sem serve →
      Interleaved sem serve outside w (os ++ [.move m]) m.after
  | outside {w w₁ w₂ : σ × τ} {os : List (Occurrence Op R σ τ (Event C A))} :
      Interleaved sem serve outside w os w₁ → outside w₁ w₂ →
      Interleaved sem serve outside w (os ++ [.outside w₁ w₂]) w₂

variable {outside : σ × τ → σ × τ → Prop} {os : List (Occurrence Op R σ τ (Event C A))}

/-- An interleaved history, continued under a deterministic environment. -/
theorem Interleaved.exec {h : Handler C A τ}
    (hh : ∀ c u x u', h c u = some (x, u') → serve c x u u') {s s' : σ} {u u' : τ} {r : R}
    {tr : List (Event C A)} (hw : Interleaved sem serve outside w os (s, u)) (op : Op)
    (he : (sem op s).exec h u = some ((r, s'), u', tr)) :
    Interleaved sem serve outside w (os ++ [.move ⟨op, (s, u), tr, r, (s', u')⟩]) (s', u') :=
  Interleaved.move (m := ⟨op, (s, u), tr, r, (s', u')⟩) hw
    ⟨Prog.exec_runs he, Prog.exec_served hh he⟩

/-- **The rule of interleaved histories.** If every move and every step from outside that meets `G`
keeps the invariant, and such a move has the property `P`, then in every history from the invariant
in which all meet `G`, all moves have the property, and the history ends in the invariant. -/
theorem Interleaved.rule {I : σ × τ → Prop} {G : Occurrence Op R σ τ (Event C A) → Prop}
    {P : Move Op R (σ × τ) (Event C A) → Prop}
    (hmove : ∀ m, m.ServedBy sem serve → I m.before → G (.move m) → P m ∧ I m.after)
    (hout : ∀ w₁ w₂, outside w₁ w₂ → I w₁ → G (.outside w₁ w₂) → I w₂)
    (h : Interleaved sem serve outside w os w') (hw : I w) (hG : ∀ o ∈ os, G o) :
    (∀ m, .move m ∈ os → P m) ∧ I w' := by
  induction h with
  | nil => exact ⟨by simp, hw⟩
  | @move os m _ hm ih =>
    obtain ⟨hP, hI⟩ := ih fun o ho => hG o (by simp [ho])
    obtain ⟨hPm, hI'⟩ := hmove m hm hI (hG _ (by simp))
    refine ⟨fun m' hm' => ?_, hI'⟩
    rcases List.mem_append.1 hm' with hm' | hm'
    · exact hP m' hm'
    · obtain rfl := Occurrence.move.inj (List.mem_singleton.1 hm')
      exact hPm
  | @outside w₁ w₂ os _ ho ih =>
    obtain ⟨hP, hI⟩ := ih fun o ho => hG o (by simp [ho])
    refine ⟨fun m' hm' => ?_, hout _ _ ho hI (hG _ (by simp))⟩
    rcases List.mem_append.1 hm' with hm' | hm'
    · exact hP m' hm'
    · cases List.mem_singleton.1 hm'

end

end LiberaDaq.Interaction
