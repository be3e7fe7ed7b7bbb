import LiberaDaq.Interaction.Layer

/-!
# Histories

A component whose operations `op : Op` are programs on a state, `sem op : σ → Prog C A (R × σ)`, is
used through a sequence of operations. A `Move` is one operation with the states before and after
it, the calls it made and its result; a `History` is a list of valid moves, each starting where the
one before it ended.

`History.rule` is the rule of the proofs about whole histories: an invariant that every move from a
state in it keeps, together with a property of the single moves. `onTop` puts a component on top of
an implementation of its interface, and `execAll` computes a history under a deterministic
environment.
-/

namespace LiberaDaq.Interaction

/-- One operation of a history. -/
structure Move (Op R σ E : Type) where
  op : Op
  before : σ
  events : List E
  result : R
  after : σ

variable {Op C : Type} {A : C → Type} {R σ : Type}

/-- The move is a run of its operation. -/
def Move.Valid (sem : Op → σ → Prog C A (R × σ)) (m : Move Op R σ (Event C A)) : Prop :=
  (sem m.op m.before).Runs m.events (m.result, m.after)

/-- The moves from one state to another. -/
inductive History (sem : Op → σ → Prog C A (R × σ)) :
    σ → List (Move Op R σ (Event C A)) → σ → Prop
  | nil (s : σ) : History sem s [] s
  | cons {m : Move Op R σ (Event C A)} {ms : List (Move Op R σ (Event C A))} {s : σ} :
      m.Valid sem → History sem m.after ms s → History sem m.before (m :: ms) s

namespace History

variable {sem : Op → σ → Prog C A (R × σ)} {ms ms' : List (Move Op R σ (Event C A))} {s s' s'' : σ}

theorem nil_iff : History sem s [] s' ↔ s' = s := by
  refine ⟨fun h => ?_, fun h => h ▸ .nil _⟩
  cases h
  rfl

theorem cons_iff {m : Move Op R σ (Event C A)} : History sem s (m :: ms) s' ↔
    m.before = s ∧ m.Valid sem ∧ History sem m.after ms s' := by
  refine ⟨fun h => ?_, fun ⟨hs, hm, h⟩ => hs ▸ .cons hm h⟩
  generalize hms : m :: ms = ms' at h
  cases h with
  | nil => cases hms
  | cons hm h =>
    obtain ⟨rfl, rfl⟩ := List.cons.inj hms
    exact ⟨rfl, hm, h⟩

theorem append (h : History sem s ms s') (h' : History sem s' ms' s'') :
    History sem s (ms ++ ms') s'' := by
  induction h with
  | nil => exact h'
  | cons hm _ ih => exact .cons hm (ih h')

theorem valid (h : History sem s ms s') : ∀ m ∈ ms, m.Valid sem := by
  induction h with
  | nil => simp
  | cons hm _ ih => exact List.forall_mem_cons.2 ⟨hm, ih⟩

theorem append_iff : History sem s (ms ++ ms') s'' ↔
    ∃ s', History sem s ms s' ∧ History sem s' ms' s'' := by
  refine ⟨fun h => ?_, fun ⟨s', h, h'⟩ => h.append h'⟩
  induction ms generalizing s with
  | nil => exact ⟨s, .nil s, h⟩
  | cons m ms ih =>
    obtain ⟨rfl, hm, h⟩ := cons_iff.1 h
    obtain ⟨s', h, h'⟩ := ih h
    exact ⟨s', .cons hm h, h'⟩

/-- The last move of a history leads to its end. -/
theorem last {m : Move Op R σ (Event C A)} (h : History sem s (ms ++ [m]) s') :
    m.Valid sem ∧ s' = m.after := by
  obtain ⟨s₁, -, h⟩ := append_iff.1 h
  obtain ⟨-, hm, h⟩ := cons_iff.1 h
  exact ⟨hm, nil_iff.1 h⟩

/-- A history of one move. -/
theorem single {m : Move Op R σ (Event C A)} (h : m.Valid sem) :
    History sem m.before [m] m.after := .cons h (.nil _)

/-- The history without the moves that `keep` rejects, when these leave the state as it was. -/
theorem filter {keep : Move Op R σ (Event C A) → Bool} (h : History sem s ms s')
    (hk : ∀ m ∈ ms, keep m = false → m.after = m.before) :
    History sem s (ms.filter keep) s' := by
  induction h with
  | nil => exact .nil _
  | @cons m ms s hm _ ih =>
    have ih := ih fun m' hm' => hk m' (List.mem_cons_of_mem _ hm')
    cases hkm : keep m with
    | true =>
      rw [List.filter_cons_of_pos hkm]
      exact .cons hm ih
    | false =>
      rw [List.filter_cons_of_neg (by simp [hkm]), ← hk m List.mem_cons_self hkm]
      exact ih

/-- **The rule of histories.** If every move from a state in the invariant `I` that meets `G` ends
in the invariant and has the property `P`, then in every history from the invariant whose moves meet
`G`, all moves have the property, and the history ends in the invariant. -/
theorem rule {I : σ → Prop} {G P : Move Op R σ (Event C A) → Prop}
    (hstep : ∀ m, m.Valid sem → I m.before → G m → P m ∧ I m.after)
    (h : History sem s ms s') (hs : I s) (hG : ∀ m ∈ ms, G m) : (∀ m ∈ ms, P m) ∧ I s' := by
  induction h with
  | nil => exact ⟨by simp, hs⟩
  | @cons m ms s hm _ ih =>
    have hstep := hstep m hm hs (hG m List.mem_cons_self)
    obtain ⟨hP, hI⟩ := ih hstep.2 fun m' hm' => hG m' (List.mem_cons_of_mem _ hm')
    refine ⟨fun m' hm' => ?_, hI⟩
    rcases List.mem_cons.1 hm' with rfl | hm'
    · exact hstep.1
    · exact hP m' hm'

theorem rule_prefix_aux {I : List (Move Op R σ (Event C A)) → σ → Prop}
    {P : List (Move Op R σ (Event C A)) → Move Op R σ (Event C A) → Prop}
    (hstep : ∀ ms m, m.Valid sem → I ms m.before → P ms m ∧ I (ms ++ [m]) m.after)
    (h : History sem s ms s') (past : List (Move Op R σ (Event C A))) (hs : I past s) :
    (∀ ms₁ m ms₂, ms = ms₁ ++ m :: ms₂ → P (past ++ ms₁) m) ∧ I (past ++ ms) s' := by
  induction h generalizing past with
  | nil => exact ⟨by simp, by simpa using hs⟩
  | @cons m ms s hm _ ih =>
    have hstep := hstep past m hm hs
    obtain ⟨hP, hI⟩ := ih (past ++ [m]) hstep.2
    rw [List.append_assoc] at hI
    refine ⟨fun ms₁ m' ms₂ he => ?_, hI⟩
    cases ms₁ with
    | nil =>
      obtain rfl := (List.cons.inj he).1
      rw [List.append_nil]
      exact hstep.1
    | cons m₁ ms₁ =>
      obtain ⟨rfl, hms⟩ := List.cons.inj he
      have hP := hP ms₁ m' ms₂ hms
      rwa [List.append_assoc] at hP

/-- **The rule of histories with a past.** As `rule`, where the invariant and the property may speak
of the moves made before. -/
theorem rule_prefix {I : List (Move Op R σ (Event C A)) → σ → Prop}
    {P : List (Move Op R σ (Event C A)) → Move Op R σ (Event C A) → Prop}
    (hstep : ∀ ms m, m.Valid sem → I ms m.before → P ms m ∧ I (ms ++ [m]) m.after)
    (h : History sem s ms s') (hs : I [] s) :
    (∀ ms₁ m ms₂, ms = ms₁ ++ m :: ms₂ → P ms₁ m) ∧ I ms s' :=
  rule_prefix_aux hstep h [] hs

end History

/-! ## On top of an implementation -/

section

variable {C' : Type} {A' : C' → Type} {τ : Type} {impl : Impl C A C' A' τ}
  {sem : Op → σ → Prog C A (R × σ)}

/-- The operations of a component on top of an implementation of its interface. -/
def onTop (impl : Impl C A C' A' τ) (sem : Op → σ → Prog C A (R × σ)) (op : Op) (s : σ × τ) :
    Prog C' A' (R × (σ × τ)) :=
  (sem op s.1).interp impl s.2 >>= fun x => Pure.pure (x.1.1, (x.1.2, x.2))

/-- A move on top of an implementation is a move of the component whose calls the implementation
answered. -/
theorem onTop_valid {m : Move Op R (σ × τ) (Event C' A')} : m.Valid (onTop impl sem) ↔
    ∃ tr, Move.Valid sem ⟨m.op, m.before.1, tr, m.result, m.after.1⟩ ∧
      Prog.Answered impl m.before.2 tr m.events m.after.2 := by
  obtain ⟨op, ⟨s, u⟩, ev, r, ⟨s', u'⟩⟩ := m
  rw [Move.Valid, onTop, Prog.runs_bind_pure]
  refine ⟨fun h => ?_, fun h => ?_⟩
  · obtain ⟨⟨⟨r', s''⟩, u''⟩, h, he⟩ := h
    obtain ⟨rfl, he⟩ := Prod.mk.inj he
    obtain ⟨rfl, rfl⟩ := Prod.mk.inj he
    exact Prog.runs_interp.1 h
  · obtain ⟨tr, h, ha⟩ := h
    exact ⟨((r, s'), u'), Prog.runs_interp.2 ⟨tr, h, ha⟩, rfl⟩

end

/-! ## Under a deterministic environment -/

section

variable {τ : Type} (h : Handler C A τ) (sem : Op → σ → Prog C A (R × σ))

/-- The moves of a list of operations under a deterministic environment; `none` when one of them
makes a call that is never answered. -/
def execAll : List Op → σ → τ → Option (List (Move Op R σ (Event C A)))
  | [], _, _ => some []
  | op :: ops, s, u =>
    match (sem op s).exec h u with
    | none => none
    | some ((r, s'), u', tr) => (execAll ops s' u').map (⟨op, s, tr, r, s'⟩ :: ·)

variable {h sem}

theorem execAll_ops {ops : List Op} {s : σ} {u : τ} {ms : List (Move Op R σ (Event C A))}
    (he : execAll h sem ops s u = some ms) : ms.map (·.op) = ops := by
  induction ops generalizing s u ms with
  | nil =>
    obtain rfl : [] = ms := Option.some.inj he
    rfl
  | cons op ops ih =>
    simp only [execAll] at he
    split at he
    · cases he
    · obtain ⟨ms', hms, rfl⟩ := Option.map_eq_some_iff.1 he
      exact congrArg (op :: ·) (ih hms)

/-- The moves under a deterministic environment are a history. -/
theorem History.of_execAll {ops : List Op} {s : σ} {u : τ}
    {ms : List (Move Op R σ (Event C A))} (he : execAll h sem ops s u = some ms) :
    ∃ s', History sem s ms s' := by
  induction ops generalizing s u ms with
  | nil =>
    obtain rfl : [] = ms := Option.some.inj he
    exact ⟨s, .nil s⟩
  | cons op ops ih =>
    simp only [execAll] at he
    split at he
    · cases he
    · rename_i r s₁ u₁ tr hx
      obtain ⟨ms', hms, rfl⟩ := Option.map_eq_some_iff.1 he
      obtain ⟨s', hh⟩ := ih hms
      exact ⟨s', .cons (m := ⟨op, s, tr, r, s₁⟩) (Prog.exec_runs hx) hh⟩

end

end LiberaDaq.Interaction
