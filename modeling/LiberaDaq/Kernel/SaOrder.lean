import LiberaDaq.Kernel.SaDevice

/-!
# The order of the SA atoms

The handler and the tasklet share the ring `dev->buf` without a lock: the handler moves `buf_head`
alone and the tasklet `buf_tail` alone, and the ring is empty when they meet. The tasklet does not
ask whether it is empty before it writes the first atom. When everything was drained already by the
run before, it hands on a stale cell and then the whole ring.

A pipe gets the atoms that the FPGA gave, each once and in their order, as long as the ring is never
empty when the tasklet writes to the pipe (`sa_order`).
-/

namespace LiberaDaq.Kernel

open LiberaDaq.Memory

variable {α : Type} {s t u : SaSite α} {i n : ℕ} {a : α} {q : SaFifo α}

/-! ## What the ring and the pipe hold -/

/-- The atom at `buf_tail` was written to the pipe already. -/
def served (i : ℕ) : SaPoint → ℕ
  | .pipe n => if i < n then 1 else 0
  | _ => 0

/-- A pipe is not served when the tasklet comes past another one. -/
theorem served_succ {j : ℕ} (hj : j ≠ i) : served i (.pipe (j + 1)) = served i (.pipe j) := by
  change (if i < j + 1 then 1 else 0) = if i < j then 1 else 0
  split <;> split <;> omega

/-- The ring holds the atoms that were not dispatched yet, and the pipe was given the others. -/
structure InOrder (i : ℕ) (s : SaSite α) : Prop where
  le : s.advanced + served i s.point ≤ s.fed.length
  pending : s.fed.length < s.advanced + saFifoDepth
  head : s.dev.bufHead = (s.dev.bufTail + (s.fed.length - s.advanced)) % saFifoDepth
  ring : ringSlice s.dev.buf saFifoDepth s.dev.bufTail (s.fed.length - s.advanced) =
    s.fed.drop s.advanced
  stored : s.stored i = s.fed.take (s.advanced + served i s.point)
  contents : ∃ q, s.dev.saPipe i = some q ∧ s.taken i ++ q.contents = s.stored i

/-- When the tasklet is not to run the ring is empty. -/
def Settled (s : SaSite α) : Prop :=
  s.point = .idle → s.scheduled = false → s.fed.length ≤ s.advanced

/-- The ring is empty when its indices meet. -/
theorem InOrder.empty_iff (h : InOrder i s) :
    s.dev.bufTail = s.dev.bufHead ↔ s.fed.length = s.advanced := by
  have hle := h.le
  have hpending := h.pending
  have hmod : s.dev.bufTail = (s.dev.bufTail + 0) % saFifoDepth := by
    rw [Nat.add_zero, Nat.mod_eq_of_lt s.dev.tail_lt]
  constructor
  · intro hmeet
    rw [h.head] at hmeet
    have hzero := add_mod_inj (by decide) (by omega) (hmod.symm.trans hmeet)
    omega
  · intro hlen
    rw [h.head, hlen, Nat.sub_self]
    exact hmod

/-- The atom at `buf_tail` is the next one to be dispatched. -/
theorem InOrder.next (h : InOrder i s) (hlt : s.advanced < s.fed.length) :
    s.fed.drop s.advanced = s.dev.buf s.dev.bufTail :: s.fed.drop (s.advanced + 1) := by
  obtain ⟨m, hm⟩ : ∃ m, s.fed.length - s.advanced = m + 1 :=
    ⟨s.fed.length - s.advanced - 1, by omega⟩
  have hring := h.ring
  rw [hm, ringSlice_succ, Nat.mod_eq_of_lt s.dev.tail_lt] at hring
  rw [← List.drop_drop, ← hring]
  rfl

theorem InOrder.take_succ (h : InOrder i s) (hlt : s.advanced < s.fed.length) :
    s.fed.take (s.advanced + 1) = s.fed.take s.advanced ++ [s.dev.buf s.dev.bufTail] := by
  have hget := h.next hlt
  rw [List.drop_eq_getElem_cons hlt] at hget
  rw [List.take_succ_eq_append_getElem hlt, (List.cons.inj hget).1]

/-! ## The handler -/

theorem readAtom_inOrder (h : InOrder i s) (hp : s.fed.length + 1 < s.advanced + saFifoDepth) :
    InOrder i (s.readAtom a) := by
  have hle := h.le
  have hlen : (s.fed ++ [a]).length - s.advanced = (s.fed.length - s.advanced) + 1 := by
    rw [List.length_append, List.length_singleton]
    omega
  refine ⟨?_, ?_, ?_, ?_, ?_, h.contents⟩
  · change s.advanced + served i s.point ≤ (s.fed ++ [a]).length
    rw [List.length_append]
    omega
  · change (s.fed ++ [a]).length < s.advanced + saFifoDepth
    rwa [List.length_append]
  · change saIncrAtom s.dev.bufHead =
      (s.dev.bufTail + ((s.fed ++ [a]).length - s.advanced)) % saFifoDepth
    rw [saIncrAtom_eq s.dev.head_lt, hlen, h.head, Nat.mod_add_mod, Nat.add_assoc]
  · change ringSlice (Function.update s.dev.buf s.dev.bufHead a) saFifoDepth s.dev.bufTail
      ((s.fed ++ [a]).length - s.advanced) = (s.fed ++ [a]).drop s.advanced
    rw [hlen, h.head, ringSlice_push (by omega), h.ring, List.drop_append_of_le_length (by omega)]
  · change s.stored i = (s.fed ++ [a]).take (s.advanced + served i s.point)
    rw [h.stored, List.take_append_of_le_length hle]

theorem foldl_readAtom_fed (as : List α) (s : SaSite α) : (as.foldl SaSite.readAtom s).fed =
    s.fed ++ as ∧ (as.foldl SaSite.readAtom s).advanced = s.advanced := by
  induction as generalizing s with
  | nil => simp
  | cons a as ih =>
    obtain ⟨hfed, hadvanced⟩ := ih (s.readAtom a)
    refine ⟨?_, hadvanced⟩
    rw [List.foldl_cons, hfed]
    simp [SaSite.readAtom]

theorem foldl_readAtom_inOrder (as : List α) (h : InOrder i s)
    (hp : s.fed.length + as.length < s.advanced + saFifoDepth) :
    InOrder i (as.foldl SaSite.readAtom s) := by
  induction as generalizing s with
  | nil => exact h
  | cons a as ih =>
    rw [List.length_cons] at hp
    have hfirst : InOrder i (s.readAtom a) := readAtom_inOrder h (by omega)
    apply ih hfirst
    change (s.fed ++ [a]).length + as.length < s.advanced + saFifoDepth
    rw [List.length_append, List.length_singleton]
    omega

theorem interrupt_inOrder {as : List α} {ovr : Bool} (h : InOrder i s)
    (hp : (s.interrupt as ovr).fed.length < (s.interrupt as ovr).advanced + saFifoDepth) :
    InOrder i (s.interrupt as ovr) := by
  let s₀ : SaSite α := { s with dev := { s.dev with inputovr := s.dev.inputovr || ovr } }
  have hfed : (s.interrupt as ovr).fed = s.fed ++ as := (foldl_readAtom_fed as s₀).1
  have hadvanced : (s.interrupt as ovr).advanced = s.advanced := (foldl_readAtom_fed as s₀).2
  rw [hfed, hadvanced, List.length_append] at hp
  have h₀ : InOrder i s₀ := ⟨h.le, h.pending, h.head, h.ring, h.stored, h.contents⟩
  have hall : InOrder i (as.foldl SaSite.readAtom s₀) := foldl_readAtom_inOrder as h₀ hp
  exact ⟨hall.le, hall.pending, hall.head, hall.ring, hall.stored, hall.contents⟩

/-! ## The tasklet -/

/-- The tasklet comes past a pipe that it does not write to, or does not stand at a pipe. -/
theorem InOrder.point {p : SaPoint} (h : InOrder i s) (hp : served i p = served i s.point) :
    InOrder i { s with point := p } where
  le := by rw [hp]; exact h.le
  pending := h.pending
  head := h.head
  ring := h.ring
  stored := by rw [hp]; exact h.stored
  contents := h.contents

/-- The write of an atom to the pipe. -/
theorem write_inOrder (h : InOrder i s) (hpoint : s.point = .pipe i) (hq : s.dev.saPipe i = some q)
    (hroom : 0 < q.room) (hne : s.dev.bufTail ≠ s.dev.bufHead) : InOrder i (s.write i q) := by
  have hnot : served i s.point = 0 := by simp [hpoint, served]
  have hafter : served i (.pipe (i + 1)) = 1 := by simp [served]
  have hlt : s.advanced < s.fed.length := by
    have hle := h.le
    have hempty := mt h.empty_iff.2 hne
    omega
  obtain ⟨q', hwrite, hq'⟩ := SaFifo.pipeWrite_one_room (a := s.dev.buf s.dev.bufTail) hroom
  obtain ⟨q₀, hq₀, hcontents⟩ := h.contents
  obtain rfl : q = q₀ := Option.some.inj (hq.symm.trans hq₀)
  have hstored : (s.write i q).stored i = s.stored i ++ [s.dev.buf s.dev.bufTail] := by
    have hpos : 0 < saAtomSize := by decide
    simp [SaSite.write, hwrite, hpos]
  have hdev : (s.write i q).dev = s.dev.setPipe i (some q') := by simp [SaSite.write, hwrite]
  refine ⟨?_, h.pending, ?_, ?_, ?_, q', ?_, ?_⟩
  · change s.advanced + served i (.pipe (i + 1)) ≤ s.fed.length
    rw [hafter]
    exact hlt
  · rw [hdev]
    exact h.head
  · rw [hdev]
    exact h.ring
  · change (s.write i q).stored i = s.fed.take (s.advanced + served i (.pipe (i + 1)))
    rw [hstored, hafter, h.take_succ hlt, h.stored, hnot, Nat.add_zero]
  · rw [hdev]
    exact Function.update_self i (some q') s.dev.saPipe
  · rw [hstored, hq', ← List.append_assoc]
    exact congrArg (· ++ _) hcontents

/-- The write of an atom to another pipe. -/
theorem write_other_inOrder {j : ℕ} (h : InOrder i s) (hpoint : s.point = .pipe j) (hj : j ≠ i) :
    InOrder i (s.write j q) := by
  have hserved : served i (.pipe (j + 1)) = served i s.point := by rw [hpoint, served_succ hj]
  have hmoved := h.point hserved
  have hstored : (s.write j q).stored i = s.stored i := by
    simp only [SaSite.write]
    split
    · exact Function.update_of_ne hj.symm _ _
    · rfl
  obtain ⟨q₀, hq₀, hcontents⟩ := h.contents
  refine ⟨hmoved.le, h.pending, h.head, h.ring, ?_, q₀, ?_, ?_⟩
  · rw [hstored]
    exact hmoved.stored
  · exact (Function.update_of_ne hj.symm _ _).trans hq₀
  · rw [hstored]
    exact hcontents

theorem dispatch_inOrder {j : ℕ} (h : InOrder i s) (hpoint : s.point = .pipe j)
    (hwrite : j = i → ∀ q, s.dev.saPipe i = some q → 0 < q.room ∧ s.dev.bufTail ≠ s.dev.bufHead) :
    InOrder i (s.dispatch j) := by
  unfold SaSite.dispatch
  by_cases hj : j = i
  · subst hj
    obtain ⟨q, hq, -⟩ := h.contents
    obtain ⟨hroom, hne⟩ := hwrite rfl q hq
    rw [hq]
    exact write_inOrder h hpoint hq hroom hne
  · split
    · apply h.point
      rw [hpoint, served_succ hj]
    · exact write_other_inOrder h hpoint hj

/-- The atom at `buf_tail` was written to the pipe when `buf_tail` is moved on. -/
theorem advance_inOrder (h : InOrder i s) (hserved : served i s.point = 1) :
    InOrder i s.advance := by
  have hle := h.le
  rw [hserved] at hle
  have hpending := h.pending
  obtain ⟨m, hm⟩ : ∃ m, s.fed.length - s.advanced = m + 1 :=
    ⟨s.fed.length - s.advanced - 1, by omega⟩
  have hrest : s.fed.length - (s.advanced + 1) = m := by omega
  have hnext := h.ring.trans (h.next (by omega))
  rw [hm, ringSlice_succ] at hnext
  refine ⟨?_, ?_, ?_, ?_, ?_, h.contents⟩
  · change s.advanced + 1 + 0 ≤ s.fed.length
    omega
  · change s.fed.length < s.advanced + 1 + saFifoDepth
    omega
  · change s.dev.bufHead =
      (saIncrAtom s.dev.bufTail + (s.fed.length - (s.advanced + 1))) % saFifoDepth
    rw [h.head, hrest, hm, saIncrAtom_eq s.dev.tail_lt, Nat.mod_add_mod, Nat.add_assoc,
      Nat.add_comm 1]
  · change ringSlice s.dev.buf saFifoDepth (saIncrAtom s.dev.bufTail)
      (s.fed.length - (s.advanced + 1)) = s.fed.drop (s.advanced + 1)
    rw [hrest, saIncrAtom_eq s.dev.tail_lt, ringSlice_mod]
    exact (List.cons.inj hnext).2
  · change s.stored i = s.fed.take (s.advanced + 1 + 0)
    rw [h.stored, hserved, Nat.add_zero]

/-- The step of the tasklet. -/
theorem tasklet_inOrder (hi : i < saMaxReaders) (h : InOrder i s) (hstep : s.tasklet = some u)
    (hwrite : s.point = .pipe i → ∀ q, s.dev.saPipe i = some q →
      0 < q.room ∧ s.dev.bufTail ≠ s.dev.bufHead) : InOrder i u := by
  unfold SaSite.tasklet at hstep
  split at hstep
  · next hpoint =>
    split at hstep
    · obtain rfl := Option.some.inj hstep
      have hmoved := h.point (p := .pipe 0) (by simp [hpoint, served])
      exact ⟨hmoved.le, hmoved.pending, hmoved.head, hmoved.ring, hmoved.stored, hmoved.contents⟩
    · cases hstep
  · next n hpoint =>
    obtain rfl := Option.some.inj hstep
    split
    · apply dispatch_inOrder h hpoint
      intro hn
      exact hwrite (hn ▸ hpoint)
    · apply advance_inOrder h
      have hlt : i < n := by omega
      simp [hpoint, served, hlt]
  · next hpoint =>
    obtain rfl := Option.some.inj hstep
    apply h.point
    rw [hpoint]
    split <;> rfl

/-! ## The readers -/

theorem register_inOrder {j : ℕ} {data : ℕ → α} (h : InOrder i s)
    (hstep : s.register j data = some u) : InOrder i u := by
  unfold SaSite.register at hstep
  split at hstep
  · next hfree =>
    obtain rfl := Option.some.inj hstep
    obtain ⟨q, hq, hcontents⟩ := h.contents
    have hj : i ≠ j := by
      intro heq
      rw [← heq, hq] at hfree
      exact absurd hfree.2 (by simp)
    refine ⟨h.le, h.pending, h.head, h.ring, ?_, q, ?_, ?_⟩
    · exact (Function.update_of_ne hj _ _).trans h.stored
    · exact (Function.update_of_ne hj _ _).trans hq
    · change Function.update s.taken j [] i ++ q.contents = Function.update s.stored j [] i
      rwa [Function.update_of_ne hj, Function.update_of_ne hj]
  · cases hstep

theorem unregister_inOrder {j : ℕ} (h : InOrder i s) (hj : ((s.unregister j).dev.saPipe i).isSome) :
    InOrder i (s.unregister j) := by
  obtain ⟨q, hq, hcontents⟩ := h.contents
  refine ⟨h.le, h.pending, h.head, h.ring, h.stored, q, ?_, hcontents⟩
  change Function.update s.dev.saPipe j none i = some q
  by_cases heq : i = j
  · subst heq
    have hnone : (s.unregister i).dev.saPipe i = none := by
      simp [SaSite.unregister, SaDevice.setPipe]
    rw [hnone] at hj
    cases hj
  · rwa [Function.update_of_ne heq]

theorem read_inOrder {j : ℕ} (h : InOrder i s) (hstep : s.read j = some u) : InOrder i u := by
  obtain ⟨q, hq, hcontents⟩ := h.contents
  unfold SaSite.read at hstep
  split at hstep
  · cases hstep
  · next q₁ hq₁ =>
    split at hstep
    · cases hstep
    · next a q' hget =>
      obtain rfl := Option.some.inj hstep
      by_cases heq : i = j
      · subst heq
        obtain rfl : q = q₁ := Option.some.inj (hq.symm.trans hq₁)
        have hcons : q.contents = a :: q'.contents := by
          rcases SaFifo.getFrom_spec (q := q) with ⟨-, hnone⟩ | ⟨b, q₂, hsome, hcons⟩
          · rw [hnone] at hget
            cases hget
          · obtain ⟨hb, rfl⟩ := Prod.mk.inj (hsome.symm.trans hget)
            obtain rfl := Option.some.inj hb
            exact hcons
        refine ⟨h.le, h.pending, h.head, h.ring, h.stored, q', ?_, ?_⟩
        · exact Function.update_self i (some q') s.dev.saPipe
        · change Function.update s.taken i (s.taken i ++ [a]) i ++ q'.contents = s.stored i
          rw [Function.update_self, List.append_assoc, List.singleton_append, ← hcons]
          exact hcontents
      · refine ⟨h.le, h.pending, h.head, h.ring, h.stored, q, ?_, ?_⟩
        · exact (Function.update_of_ne heq _ _).trans hq
        · change Function.update s.taken j _ i ++ q.contents = s.stored i
          rwa [Function.update_of_ne heq]

/-! ## Runs -/

/-- The reader of the slot is registered, and fewer atoms are pending than the ring has cells. -/
structure Steady (i : ℕ) (s : SaSite α) : Prop where
  registered : (s.dev.saPipe i).isSome
  pending : s.fed.length < s.advanced + saFifoDepth

instance : Decidable (Steady i s) :=
  decidable_of_iff ((s.dev.saPipe i).isSome ∧ s.fed.length < s.advanced + saFifoDepth)
    ⟨fun h => ⟨h.1, h.2⟩, fun h => ⟨h.1, h.2⟩⟩

/-- The pipe has room for what is written to it. -/
def HasRoom (i : ℕ) (s : SaSite α) (a : SaAction α) : Prop :=
  ∀ q, Writes s a i q → 0 < q.room

/-- The ring holds an atom when the tasklet writes to the pipe. -/
def HasAtom (i : ℕ) (s : SaSite α) (a : SaAction α) : Prop :=
  ∀ q, Writes s a i q → s.dev.bufTail ≠ s.dev.bufHead

instance {c : SaAction α} : Decidable (HasRoom i s c) :=
  inferInstanceAs (Decidable (∀ q, Writes s c i q → 0 < q.room))

instance {c : SaAction α} : Decidable (HasAtom i s c) :=
  inferInstanceAs (Decidable (∀ q, Writes s c i q → s.dev.bufTail ≠ s.dev.bufHead))

theorem step_inOrder {c : SaAction α} (hi : i < saMaxReaders) (h : InOrder i s)
    (hstep : s.step c = some u) (hu : Steady i u) (hroom : HasRoom i s c) (hatom : HasAtom i s c) :
    InOrder i u := by
  cases c with
  | interrupt a rest ovr =>
    obtain rfl := Option.some.inj hstep
    exact interrupt_inOrder h hu.pending
  | tasklet =>
    apply tasklet_inOrder hi h hstep
    intro hpoint q hq
    exact ⟨hroom q ⟨hq, rfl, hpoint, hi⟩, hatom q ⟨hq, rfl, hpoint, hi⟩⟩
  | register j data => exact register_inOrder h hstep
  | unregister j =>
    obtain rfl := Option.some.inj hstep
    exact unregister_inOrder h hu.registered
  | read j => exact read_inOrder h hstep

/-- The tasklet ends with the ring empty. -/
theorem tasklet_settled (h : InOrder i s) (hstep : s.tasklet = some u) : Settled u := by
  unfold SaSite.tasklet at hstep
  intro hidle
  split at hstep
  · split at hstep
    · obtain rfl := Option.some.inj hstep
      cases hidle
    · cases hstep
  · obtain rfl := Option.some.inj hstep
    split at hidle
    · unfold SaSite.dispatch at hidle
      split at hidle <;> cases hidle
    · cases hidle
  · obtain rfl := Option.some.inj hstep
    intro _
    by_cases hmeet : s.dev.bufTail = s.dev.bufHead
    · exact (h.empty_iff.1 hmeet).le
    · have hloop : (s.test).point = .pipe 0 := if_pos hmeet
      rw [hloop] at hidle
      cases hidle

/-- When the tasklet is not to run the ring is empty: an interrupt has it run again. -/
theorem step_settled {c : SaAction α} (h : InOrder i s) (hset : Settled s)
    (hstep : s.step c = some u) : Settled u := by
  cases c with
  | interrupt a rest ovr =>
    obtain rfl := Option.some.inj hstep
    intro _ hscheduled
    cases hscheduled
  | tasklet => exact tasklet_settled h hstep
  | register j data =>
    have hstep : s.register j data = some u := hstep
    unfold SaSite.register at hstep
    split at hstep
    · obtain rfl := Option.some.inj hstep
      exact hset
    · cases hstep
  | unregister j =>
    obtain rfl := Option.some.inj hstep
    exact hset
  | read j =>
    have hstep : s.read j = some u := hstep
    unfold SaSite.read at hstep
    split at hstep
    · cases hstep
    · split at hstep
      · cases hstep
      · obtain rfl := Option.some.inj hstep
        exact hset

/-- The device at the start, with a reader in the slot: the ring is empty, at any position, and the
tasklet does not run. -/
structure SaSite.Fresh (i : ℕ) (s : SaSite α) : Prop where
  empty : s.dev.bufTail = s.dev.bufHead
  idle : s.point = .idle
  fed : s.fed = []
  advanced : s.advanced = 0
  stored : s.stored i = []
  taken : s.taken i = []
  pipe : ∃ q, s.dev.saPipe i = some q ∧ q.contents = []

theorem SaSite.Fresh.inOrder (h : s.Fresh i) : InOrder i s where
  le := by simp [h.idle, h.advanced, served]
  pending := by
    rw [h.fed, h.advanced, List.length_nil]
    decide
  head := by
    rw [h.fed, h.advanced, ← h.empty]
    exact (Nat.mod_eq_of_lt s.dev.tail_lt).symm
  ring := by simp [h.fed]
  stored := by simp [h.stored, h.fed]
  contents := by
    obtain ⟨q, hq, hcontents⟩ := h.pipe
    exact ⟨q, hq, by rw [h.taken, hcontents, h.stored, List.append_nil]⟩

/-- What the pipe was given is what the FPGA gave: in its order, and all of it when the tasklet is
not to run. The reader gets it from the pipe in this order. -/
structure Relayed (i : ℕ) (s : SaSite α) : Prop where
  order : s.stored i <+: s.fed
  complete : s.point = .idle → s.scheduled = false → s.stored i = s.fed
  queue : ∃ q, s.dev.saPipe i = some q ∧ s.taken i ++ q.contents = s.stored i

theorem InOrder.relayed (h : InOrder i s) (hset : Settled s) : Relayed i s where
  order := by
    rw [h.stored]
    exact List.take_prefix _ _
  complete := fun hidle hscheduled => by
    rw [h.stored]
    exact List.take_of_length_le ((hset hidle hscheduled).trans (Nat.le_add_right _ _))
  queue := h.contents

/-- What a run keeps whose steps meet the conditions. -/
theorem run_inOrder {tr : List (SaSite α × SaAction α)} (hi : i < saMaxReaders)
    (hrun : SaRun s tr t) (h : InOrder i s) (hset : Settled s)
    (hsteady : (∀ x ∈ tr, Steady i x.1) ∧ Steady i t) (hroom : ∀ x ∈ tr, HasRoom i x.1 x.2)
    (hatom : ∀ x ∈ tr, HasAtom i x.1 x.2) : InOrder i t ∧ Settled t := by
  induction hrun with
  | nil => exact ⟨h, hset⟩
  | @snoc t u tr c hrun hstep ih =>
    have hmem : ∀ x ∈ tr, x ∈ tr ++ [(t, c)] := fun x hx => List.mem_append_left _ hx
    have hlast : (t, c) ∈ tr ++ [(t, c)] := by simp
    obtain ⟨ht, hsett⟩ := ih ⟨fun x hx => hsteady.1 x (hmem x hx), hsteady.1 _ hlast⟩
      (fun x hx => hroom x (hmem x hx)) fun x hx => hatom x (hmem x hx)
    exact ⟨step_inOrder hi ht hstep hsteady.2 (hroom _ hlast) (hatom _ hlast),
      step_settled ht hsett hstep⟩

/-- **The atoms reach the pipe in order**, each once and none that was not read, in every
interleaving of the handler, the tasklet and the readers in which the ring holds an atom whenever
the tasklet writes to the pipe. -/
theorem sa_order {tr : List (SaSite α × SaAction α)} (hi : i < saMaxReaders) (h : s.Fresh i)
    (hrun : SaRun s tr t) (hsteady : (∀ x ∈ tr, Steady i x.1) ∧ Steady i t)
    (hroom : ∀ x ∈ tr, HasRoom i x.1 x.2) (hatom : ∀ x ∈ tr, HasAtom i x.1 x.2) : Relayed i t := by
  have hset : Settled s := fun _ _ => by rw [h.fed]; exact Nat.zero_le _
  obtain ⟨ht, hsett⟩ := run_inOrder hi hrun h.inOrder hset hsteady hroom hatom
  exact ht.relayed hsett

/-! ### A run of the tasklet with nothing to do -/

theorem withReader_fresh : (SaSite.withReader emptyPipe).Fresh 0 :=
  ⟨rfl, rfl, rfl, rfl, rfl, rfl, emptyPipe, rfl, rfl⟩

/-- A second interrupt while the tasklet handles the first: the tasklet drains both atoms, runs once
more, and comes to the pipe. -/
def lateInterrupt : List (SaAction ℕ) :=
  [.interrupt 1 [] false, .tasklet, .interrupt 2 [] false] ++ List.replicate 38 .tasklet

set_option maxRecDepth 4000 in
/-- The tasklet writes a stale cell to the pipe when it runs once more than there is to do. -/
theorem stale_atom_dispatched : ¬∀ (i : ℕ) (s t : SaSite ℕ) (tr : List (SaSite ℕ × SaAction ℕ)),
    i < saMaxReaders → s.Fresh i → SaRun s tr t → ((∀ x ∈ tr, Steady i x.1) ∧ Steady i t) →
    (∀ x ∈ tr, HasRoom i x.1 x.2) → Relayed i t := by
  intro h
  obtain ⟨x, hx⟩ : ∃ x, (SaSite.withReader emptyPipe).steps lateInterrupt = some x :=
    Option.isSome_iff_exists.1 (by decide)
  have hrun : ∀ x ∈ (SaSite.withReader emptyPipe).steps lateInterrupt,
      (∀ y ∈ x.1, Steady 0 y.1 ∧ HasRoom 0 y.1 y.2) ∧ Steady 0 x.2 ∧
      x.2.stored 0 = [1, 2, 0] ∧ x.2.fed = [1, 2] := by decide
  obtain ⟨htr, hlast, hstored, hfed⟩ := hrun x hx
  have horder := (h 0 _ _ _ (by decide) withReader_fresh (SaRun.of_steps hx)
    ⟨fun y hy => (htr y hy).1, hlast⟩ fun y hy => (htr y hy).2).order
  rw [hstored, hfed] at horder
  exact absurd horder (by decide)

set_option maxRecDepth 4000 in
/-- The one atom of an interrupt reaches the reader's pipe. -/
theorem sa_order_single : ∃ tr t, SaRun (SaSite.withReader emptyPipe) tr t ∧
    tr.length = 20 ∧ t.stored 0 = [7] ∧ Relayed 0 t := by
  obtain ⟨x, hx⟩ : ∃ x, (SaSite.withReader emptyPipe).steps
      (.interrupt 7 [] false :: List.replicate 19 .tasklet) = some x :=
    Option.isSome_iff_exists.1 (by decide)
  have hrun : ∀ x ∈ (SaSite.withReader emptyPipe).steps
      (.interrupt 7 [] false :: List.replicate 19 .tasklet),
      (∀ y ∈ x.1, Steady 0 y.1 ∧ HasRoom 0 y.1 y.2 ∧ HasAtom 0 y.1 y.2) ∧ Steady 0 x.2 ∧
      x.1.length = 20 ∧ x.2.stored 0 = [7] := by decide
  obtain ⟨htr, hlast, hlength, hstored⟩ := hrun x hx
  exact ⟨x.1, x.2, SaRun.of_steps hx, hlength, hstored, sa_order (by decide) withReader_fresh
    (SaRun.of_steps hx) ⟨fun y hy => (htr y hy).1, hlast⟩ (fun y hy => (htr y hy).2.1)
    fun y hy => (htr y hy).2.2⟩

end LiberaDaq.Kernel
