import LiberaDaq.Interaction.Crowd

/-!
# The journal of a crowd

An environment that is used by several threads may write down who made which call. What is known of
a single program by its runs is then known of an operation in any company: its own entries in the
journal are a run of it (`Crowd.Run.journaled`). And what the others do is in the journal as well:
the environment is what all entries, one after the other, have made of it (`Followed`).
-/

namespace LiberaDaq.Interaction

variable {ι Op R C τ : Type} {A : C → Type}

/-- The environment that also writes down the calls, with who made them. -/
def journal (serve : ι → Serves C A τ) (i : ι) : Serves C A (τ × List (ι × Event C A)) :=
  fun c x v v' => serve i c x v.1 v'.1 ∧ v'.2 = v.2 ++ [(i, ⟨c, x⟩)]

/-- The environment answered the calls of a journal, one after the other. -/
def Followed (serve : ι → Serves C A τ) : List (ι × Event C A) → τ → τ → Prop
  | [], u, u' => u' = u
  | e :: l, u, u' => ∃ v, serve e.1 e.2.1 e.2.2 u v ∧ Followed serve l v u'

/-- The environment that gathers what the events hold. -/
def gather {β : Type} (f : Event C A → Option β) : Serves C A (List β) :=
  fun c x s s' => s' = s ++ (f ⟨c, x⟩).toList

theorem served_gather {β : Type} {f : Event C A → Option β} {tr : List (Event C A)} {s : List β} :
    Prog.Served (gather f) tr s (s ++ tr.filterMap f) := by
  induction tr generalizing s with
  | nil => simp [Prog.Served]
  | cons e tr ih =>
    refine ⟨s ++ (f e).toList, rfl, ?_⟩
    have hrest := ih (s := s ++ (f e).toList)
    rw [List.append_assoc] at hrest
    cases hf : f e <;> simpa [List.filterMap_cons, hf] using hrest

/-- The calls of one thread. -/
def own [DecidableEq ι] (i : ι) (l : List (ι × Event C A)) : List (Event C A) :=
  l.filterMap fun e => if e.1 = i then some e.2 else none

section

variable {serve : ι → Serves C A τ} {l m : List (ι × Event C A)} {u v w : τ}

theorem followed_append : Followed serve (l ++ m) u w ↔
    ∃ v, Followed serve l u v ∧ Followed serve m v w := by
  induction l generalizing u with
  | nil => simp [Followed]
  | cons e l ih =>
    simp only [List.cons_append, Followed, ih]
    constructor
    · rintro ⟨v, hv, v', hl, hm⟩
      exact ⟨v', ⟨v, hv, hl⟩, hm⟩
    · rintro ⟨v', ⟨v, hv, hl⟩, hm⟩
      exact ⟨v, hv, v', hl, hm⟩

theorem Followed.snoc {i : ι} {c : C} {x : A c} (h : Followed serve l u v)
    (hx : serve i c x v w) : Followed serve (l ++ [(i, ⟨c, x⟩)]) u w :=
  followed_append.2 ⟨v, h, w, hx, rfl⟩

/-- An assertion that every call in the journal keeps. -/
theorem Followed.keeps {I : τ → Prop} (h : Followed serve l u v)
    (hI : ∀ e ∈ l, ∀ v w, serve e.1 e.2.1 e.2.2 v w → I v → I w) (hu : I u) : I v := by
  induction l generalizing u with
  | nil =>
    obtain rfl : v = u := h
    exact hu
  | cons e l ih =>
    obtain ⟨w, hw, hl⟩ := h
    have hnext : I w := hI e List.mem_cons_self u w hw hu
    exact ih hl (fun e' he' => hI e' (List.mem_cons_of_mem e he')) hnext

variable [DecidableEq ι] {i : ι}

@[simp] theorem own_nil : own i ([] : List (ι × Event C A)) = [] := rfl

@[simp] theorem own_append : own i (l ++ m) = own i l ++ own i m := List.filterMap_append

@[simp] theorem own_self {e : Event C A} : own i [(i, e)] = [e] := by simp [own]

@[simp] theorem own_other {j : ι} {e : Event C A} (h : j ≠ i) : own i [(j, e)] = [] := by
  simp [own, h]

theorem mem_own {e : Event C A} : e ∈ own i l ↔ (i, e) ∈ l := by
  simp [own]

end

namespace Crowd

/-- The journal between two moments, and what it made of the environment. -/
structure Between (serve : ι → Serves C A τ) (v w : τ × List (ι × Event C A))
    (m : List (ι × Event C A)) : Prop where
  entries : w.2 = v.2 ++ m
  followed : Followed serve m v.1 w.1

/-- The environment between two moments, at a third one. -/
def Moment (serve : ι → Serves C A τ) (v w x : τ × List (ι × Event C A)) : Prop :=
  (∃ l, Between serve v x l) ∧ ∃ m, Between serve x w m

section

variable {serve : ι → Serves C A τ} {v w w' : τ × List (ι × Event C A)}
  {m m' : List (ι × Event C A)}

theorem Between.refl : Between serve v v [] := ⟨(List.append_nil _).symm, rfl⟩

theorem Between.trans (h : Between serve v w m) (h' : Between serve w w' m') :
    Between serve v w' (m ++ m') :=
  ⟨by rw [h'.entries, h.entries, List.append_assoc], followed_append.2 ⟨w.1, h.followed, h'.followed⟩⟩

theorem between_call {i : ι} {c : C} {x : A c} (h : journal serve i c x v w) :
    Between serve v w [(i, ⟨c, x⟩)] := ⟨h.2, w.1, h.1, rfl⟩

/-- The moment before a call in the journal. -/
theorem Between.split {e : ι × Event C A} (h : Between serve v w m) (he : e ∈ m) :
    ∃ l l' x, m = l ++ e :: l' ∧ Between serve v x l ∧ Between serve x w (e :: l') ∧
      ∃ y, serve e.1 e.2.1 e.2.2 x.1 y := by
  obtain ⟨l, l', rfl⟩ := List.append_of_mem he
  obtain ⟨hentries, hfollowed⟩ := h
  obtain ⟨x, hl, y, hy, hl'⟩ := followed_append.1 hfollowed
  refine ⟨l, l', (x, v.2 ++ l), rfl, ⟨rfl, hl⟩, ⟨?_, y, hy, hl'⟩, y, hy⟩
  rw [hentries, List.append_assoc]

end

variable [DecidableEq ι] {sem : Op → Prog C A R} {serve : ι → Serves C A τ}
  {u : τ × List (ι × Event C A)} {ds : List (Done ι Op R (τ × List (ι × Event C A)))}
  {s t : Crowd ι Op R C A (τ × List (ι × Event C A))}

/-- An operation that has returned between two moments: its own calls in the journal are a run
of it. -/
structure Journaled (sem : Op → Prog C A R) (serve : ι → Serves C A τ)
    (u w : τ × List (ι × Event C A)) (d : Done ι Op R (τ × List (ι × Event C A))) : Prop where
  before : ∃ l, Between serve u d.before l
  during : ∃ m, Between serve d.before d.after m ∧ (sem d.op).Runs (own d.thread m) d.result
  after : ∃ n, Between serve d.after w n

/-- What is known of a thread between two steps: its calls since its operation began, with any run
of what is left of the operation, are a run of it. -/
def Recorded (sem : Op → Prog C A R) (serve : ι → Serves C A τ) (u : τ × List (ι × Event C A))
    (i : ι) (w : τ × List (ι × Event C A)) : Thread Op R C A (τ × List (ι × Event C A)) → Prop
  | .idle => True
  | .busy op v p => (∃ l, Between serve u v l) ∧ ∃ m, Between serve v w m ∧
      ∀ tr r, p.Runs tr r → (sem op).Runs (own i m ++ tr) r

theorem Journaled.later {w w' : τ × List (ι × Event C A)}
    {d : Done ι Op R (τ × List (ι × Event C A))} {n : List (ι × Event C A)}
    (h : Journaled sem serve u w d) (hn : Between serve w w' n) : Journaled sem serve u w' d := by
  obtain ⟨n', hn'⟩ := h.after
  exact ⟨h.before, h.during, n' ++ n, hn'.trans hn⟩

/-- A thread that does not make the call. -/
theorem Recorded.other {i j : ι} {v w : τ × List (ι × Event C A)} {c : C} {x : A c}
    {a : Thread Op R C A (τ × List (ι × Event C A))} (h : Recorded sem serve u j v a)
    (hj : i ≠ j) (hx : journal serve i c x v w) : Recorded sem serve u j w a := by
  cases a with
  | idle => trivial
  | busy op v' p =>
    obtain ⟨hl, m, hm, hruns⟩ := h
    refine ⟨hl, m ++ [(i, ⟨c, x⟩)], hm.trans (between_call hx), fun tr r htr => ?_⟩
    rw [own_append, own_other hj, List.append_nil]
    exact hruns tr r htr

/-- **The rule of the journal.** In every interleaving of the operations the calls of one that has
returned are a run of it, and the environment is what the whole journal has made of it. -/
theorem Run.journaled (h : Run sem (journal serve) (rest u) ds t) :
    (∀ d ∈ ds, Journaled sem serve u t.world d) ∧ ∃ l, Between serve u t.world l := by
  suffices h' : (∀ d ∈ ds, Journaled sem serve u t.world d) ∧ (∃ l, Between serve u t.world l) ∧
      ∀ i, Recorded sem serve u i t.world (t.threads i) from ⟨h'.1, h'.2.1⟩
  induction h with
  | nil => exact ⟨by simp, ⟨[], .refl⟩, fun _ => trivial⟩
  | @snoc ds ds' s t _ hturn ih =>
    obtain ⟨hds, ⟨l, hl⟩, hthreads⟩ := ih
    cases hturn with
    | begin i op hidle =>
      refine ⟨by simpa [become] using hds, ⟨l, hl⟩, fun j => ?_⟩
      by_cases hj : j = i
      · subst hj
        simp only [become, Function.update_self, Recorded]
        exact ⟨⟨l, hl⟩, [], .refl, fun tr r htr => htr⟩
      · simpa [become, hj] using hthreads j
    | call i op before c k x v hbusy hx =>
      have hnext : Between serve s.world v [(i, ⟨c, x⟩)] := between_call hx
      refine ⟨fun d hd => ?_, ⟨_, hl.trans hnext⟩, fun j => ?_⟩
      · rw [List.append_nil] at hd
        exact (hds d hd).later hnext
      · by_cases hj : j = i
        · subst hj
          have hi := hthreads j
          rw [hbusy] at hi
          obtain ⟨hbefore, m, hm, hruns⟩ := hi
          simp only [become, Function.update_self, Recorded]
          refine ⟨hbefore, _, hm.trans hnext, fun tr r htr => ?_⟩
          have hcall : (Prog.call c k).Runs (⟨c, x⟩ :: tr) r := ⟨x, tr, rfl, htr⟩
          simpa using hruns _ _ hcall
        · have hsame := (hthreads j).other (Ne.symm hj) hx
          simpa [become, hj] using hsame
    | ret i op before r hbusy =>
      have hi := hthreads i
      rw [hbusy] at hi
      obtain ⟨hbefore, m, hm, hruns⟩ := hi
      have hrun : (sem op).Runs (own i m) r := by simpa using hruns [] r ⟨rfl, rfl⟩
      refine ⟨List.forall_mem_append.2 ⟨hds, List.forall_mem_singleton.2 ?_⟩, ⟨l, hl⟩, fun j => ?_⟩
      · exact ⟨hbefore, ⟨m, hm, hrun⟩, [], .refl⟩
      · by_cases hj : j = i
        · subst hj
          simp [become, Recorded]
        · simpa [become, hj] using hthreads j

end Crowd

end LiberaDaq.Interaction
