import LiberaDaq.Kernel.SaDevice

/-!
# Lost SA atoms

An atom is lost to a reader when the handler overwrites it in the ring before the tasklet wrote it
to the pipe, or when the pipe is full then. The tasklet sends `LIBERA_EVENT_OVERFLOW` for a pipe
when `libera_pipe_write` returns `-EFAULT`, but it writes single atoms, and to a full pipe the write
of a single atom returns `0`. The handler does not look for an overrun of the ring at all. So no
loss is reported, and all are exactly when there are none (`losses_reported_iff`).
-/

namespace LiberaDaq.Kernel

open LiberaDaq.Memory

variable {α : Type} {s t u : SaSite α} {i : ℕ} {a : α} {q : SaFifo α} {as : List α}

/-! ## The handler -/

/-- Nothing of the ring is lost when the handler reads `n` atoms. -/
def RingSpared (s : SaSite α) (n : ℕ) : Prop :=
  ∀ i < saMaxReaders, (s.dev.saPipe i).isSome → n ≤ saFifoDepth ∧
    ∀ k < n, s.waiting i ((s.dev.bufHead + k) % saFifoDepth) = false

/-- Nothing is lost when the pipes do not wait for the cell at `buf_head`. -/
theorem readAtom_lost_iff : (s.readAtom a).lost = s.lost ↔
    ∀ i < saMaxReaders, (s.dev.saPipe i).isSome → s.waiting i s.dev.bufHead = false := by
  have happend : (s.readAtom a).lost = s.lost ↔ s.waitingFor s.dev.bufHead = [] := by
    simp [SaSite.readAtom]
  rw [happend, SaSite.waitingFor, List.filter_eq_nil_iff]
  constructor
  · intro h i hi hsome
    have hwait := h i (List.mem_range.2 hi)
    simpa [hsome] using hwait
  · intro h i hi
    cases hsome : (s.dev.saPipe i).isSome with
    | true => simp [h i (List.mem_range.1 hi) hsome]
    | false => simp

theorem readAtom_lost_prefix : s.lost <+: (s.readAtom a).lost := List.prefix_append _ _

theorem foldl_readAtom_lost_prefix (as : List α) (s : SaSite α) :
    s.lost <+: (as.foldl SaSite.readAtom s).lost := by
  induction as generalizing s with
  | nil => exact List.prefix_rfl
  | cons a as ih => exact readAtom_lost_prefix.trans (ih (s.readAtom a))

/-- The handler spares the ring when it has a cell for every atom. -/
theorem ringSpared_succ {n : ℕ} : RingSpared s (n + 1) ↔
    (∀ i < saMaxReaders, (s.dev.saPipe i).isSome → s.waiting i s.dev.bufHead = false) ∧
    RingSpared (s.readAtom a) n := by
  have hpos : 0 < saFifoDepth := by decide
  have hhead := Nat.mod_eq_of_lt s.dev.head_lt
  have hnext : ∀ k, ((s.readAtom a).dev.bufHead + k) % saFifoDepth =
      (s.dev.bufHead + (k + 1)) % saFifoDepth := by
    intro k
    change (saIncrAtom s.dev.bufHead + k) % saFifoDepth = _
    rw [saIncrAtom_eq s.dev.head_lt, Nat.mod_add_mod, Nat.add_assoc, Nat.add_comm 1]
  have hmeet :
      ∀ k, k + 1 < saFifoDepth → (s.dev.bufHead + (k + 1)) % saFifoDepth ≠ s.dev.bufHead := by
    intro k hk h
    have hself : (s.dev.bufHead + (k + 1)) % saFifoDepth = (s.dev.bufHead + 0) % saFifoDepth := by
      rw [h, Nat.add_zero, hhead]
    have hzero := add_mod_inj hk hpos hself
    omega
  have hwaiting : ∀ i c, (s.readAtom a).waiting i c =
      if c = s.dev.bufHead then (s.dev.saPipe i).isSome else s.waiting i c := fun _ _ => rfl
  constructor
  · intro h
    refine ⟨fun i hi hsome => ?_, fun i hi hsome => ?_⟩
    · have hfirst := (h i hi hsome).2 0 (Nat.succ_pos n)
      rwa [Nat.add_zero, hhead] at hfirst
    · obtain ⟨hle, hcells⟩ := h i hi hsome
      refine ⟨by omega, fun k hk => ?_⟩
      rw [hnext, hwaiting, if_neg (hmeet k (by omega))]
      exact hcells (k + 1) (by omega)
  · intro ⟨hfirst, hrest⟩ i hi hsome
    obtain ⟨hle, hcells⟩ := hrest i hi hsome
    have hlt : n < saFifoDepth := by
      by_contra hn
      have hn : n = saFifoDepth := by omega
      have hlast := hcells (saFifoDepth - 1) (by omega)
      have hround : (s.dev.bufHead + (saFifoDepth - 1 + 1)) % saFifoDepth = s.dev.bufHead := by
        rw [show saFifoDepth - 1 + 1 = saFifoDepth from rfl, Nat.add_mod_right, hhead]
      rw [hnext, hround, hwaiting, if_pos rfl, hsome] at hlast
      cases hlast
    refine ⟨hlt, fun k hk => ?_⟩
    cases k with
    | zero =>
      rw [Nat.add_zero, hhead]
      exact hfirst i hi hsome
    | succ k =>
      have hcell := hcells k (by omega)
      rwa [hnext, hwaiting, if_neg (hmeet k (by omega))] at hcell

theorem foldl_readAtom_lost_iff (as : List α) (s : SaSite α) :
    (as.foldl SaSite.readAtom s).lost = s.lost ↔ RingSpared s as.length := by
  induction as generalizing s with
  | nil =>
    constructor
    · intro _ i _ _
      exact ⟨Nat.zero_le _, fun k hk => absurd hk (Nat.not_lt_zero k)⟩
    · intro _
      rfl
  | cons a as ih =>
    rw [List.length_cons, ringSpared_succ (a := a), ← readAtom_lost_iff (a := a),
      ← ih (s.readAtom a)]
    have hfirst : s.lost <+: (s.readAtom a).lost := readAtom_lost_prefix
    have hrest := foldl_readAtom_lost_prefix as (s.readAtom a)
    constructor
    · intro h
      rw [List.foldl_cons] at h
      have hsame : (s.readAtom a).lost = s.lost :=
        (hfirst.eq_of_length_le (h ▸ hrest.length_le)).symm
      exact ⟨hsame, h.trans hsame.symm⟩
    · intro h
      exact h.2.trans h.1

theorem foldl_readAtom_events (as : List α) (s : SaSite α) :
    (as.foldl SaSite.readAtom s).events = s.events := by
  induction as generalizing s with
  | nil => rfl
  | cons a as ih => exact ih (s.readAtom a)

/-! ## The tasklet -/

/-- The write of one atom gives an error for no pipe, and stores nothing in one that is full. -/
theorem pipeWrite_one_ret : (q.pipeWrite (fun _ => a) saAtomSize).1 ≠ -SaFifo.eFault ∧
    ((q.pipeWrite (fun _ => a) saAtomSize).1 ≤ 0 ↔ q.room = 0) := by
  have hzero : (0 : ℤ) ≠ -SaFifo.eFault := by decide
  have hone : ((saAtomSize : ℕ) : ℤ) ≠ -SaFifo.eFault := by decide
  by_cases hroom : q.room = 0
  · rw [SaFifo.pipeWrite_one_full hroom]
    exact ⟨hzero, fun _ => hroom, fun _ => le_rfl⟩
  · obtain ⟨q', hwrite, -⟩ := SaFifo.pipeWrite_one_room (a := a) (Nat.pos_of_ne_zero hroom)
    rw [hwrite]
    have hsize : ¬((saAtomSize : ℕ) : ℤ) ≤ 0 := by decide
    exact ⟨hone, fun h => absurd h hsize, fun h => absurd h hroom⟩

/-- Nothing is lost by a write, if the pipe does not wait for the atom or has room for it. -/
theorem write_lost_iff : (s.write i q).lost = s.lost ↔
    (s.waiting i s.dev.bufTail = true → 0 < q.room) := by
  have hret := (pipeWrite_one_ret (q := q) (a := s.dev.buf s.dev.bufTail)).2
  have hlost : (s.write i q).lost = if q.room = 0 ∧ s.waiting i s.dev.bufTail = true then
      s.lost ++ [(i, s.dev.buf s.dev.bufTail)] else s.lost := by
    simp only [SaSite.write, hret]
  rw [hlost]
  split
  · next h =>
    constructor
    · intro hsame
      simp at hsame
    · intro hroom
      have hpos := hroom h.2
      omega
  · next h =>
    constructor
    · intro _ hwait
      by_contra hroom
      exact h ⟨by omega, hwait⟩
    · intro _
      rfl

theorem write_events : (s.write i q).events = s.events := by
  have hret := (pipeWrite_one_ret (q := q) (a := s.dev.buf s.dev.bufTail)).1
  simp only [SaSite.write, hret, if_false]

/-! ## Runs -/

/-- The step loses no atom: the ring has a free cell for every atom that the handler reads, and a
pipe has room when the tasklet writes an atom to it that it waits for. -/
def Spares (s : SaSite α) : SaAction α → Prop
  | .interrupt _ rest _ => RingSpared s (rest.length + 1)
  | c => ∀ i q, Writes s c i q → s.waiting i s.dev.bufTail = true → 0 < q.room

/-- Every atom that was lost led to an overflow event of the driver. -/
def Reported (s : SaSite α) : Prop := s.lost.length ≤ s.events.count .overflowDrv

/-- What a step does to the books of the losses. -/
structure Losing (s : SaSite α) (c : SaAction α) (u : SaSite α) : Prop where
  lost : s.lost <+: u.lost
  lost_iff : u.lost = s.lost ↔ Spares s c
  events : u.events.count .overflowDrv = s.events.count .overflowDrv

/-- A step that keeps the books of the losses loses nothing. -/
theorem Losing.of_same {c : SaAction α} (hlost : u.lost = s.lost)
    (hevents : u.events.count .overflowDrv = s.events.count .overflowDrv) (h : Spares s c) :
    Losing s c u where
  lost := hlost ▸ List.prefix_rfl
  lost_iff := iff_of_true hlost h
  events := hevents

theorem spares_of_not_tasklet {c : SaAction α} (hc : c.isTasklet = false)
    (hi : ∀ b rest ovr, c ≠ .interrupt b rest ovr) : Spares s c := by
  cases c with
  | interrupt b rest ovr => exact absurd rfl (hi b rest ovr)
  | tasklet => cases hc
  | _ =>
    intro i q hw
    cases hw.2.1

theorem interrupt_losing {rest : List α} {ovr : Bool} :
    Losing s (.interrupt a rest ovr) (s.interrupt (a :: rest) ovr) := by
  let s₀ : SaSite α := { s with dev := { s.dev with inputovr := s.dev.inputovr || ovr } }
  have hlost :
      (s.interrupt (a :: rest) ovr).lost = ((a :: rest).foldl SaSite.readAtom s₀).lost := rfl
  refine ⟨?_, ?_, ?_⟩
  · rw [hlost]
    exact foldl_readAtom_lost_prefix (a :: rest) s₀
  · rw [hlost]
    exact foldl_readAtom_lost_iff (a :: rest) s₀
  · change ((a :: rest).foldl SaSite.readAtom s₀).events.count _ = _
    rw [foldl_readAtom_events]

theorem write_losing (hpoint : s.point = .pipe i) (hi : i < saMaxReaders)
    (hq : s.dev.saPipe i = some q) : Losing s .tasklet (s.write i q) where
  lost := by
    simp only [SaSite.write]
    split
    · exact List.prefix_append _ _
    · exact List.prefix_rfl
  lost_iff := by
    rw [write_lost_iff]
    constructor
    · intro hroom j p hw
      obtain ⟨hp, -, hj, -⟩ := hw
      obtain rfl : i = j := SaPoint.pipe.inj (hpoint.symm.trans hj)
      obtain rfl : q = p := Option.some.inj (hq.symm.trans hp)
      exact hroom
    · intro hspares
      exact hspares i q ⟨hq, rfl, hpoint, hi⟩
  events := by rw [write_events]

/-- The tasklet loses an atom only where it writes to a pipe. -/
theorem tasklet_losing (hstep : s.tasklet = some u) : Losing s .tasklet u := by
  unfold SaSite.tasklet at hstep
  split at hstep
  · next hpoint =>
    split at hstep
    · obtain rfl := Option.some.inj hstep
      have hevents : s.start.events.count .overflowDrv = s.events.count .overflowDrv := by
        simp only [SaSite.start]
        split <;> simp
      refine Losing.of_same rfl hevents ?_
      intro i q hw
      cases hpoint.symm.trans hw.2.2.1
    · cases hstep
  · next n hpoint =>
    obtain rfl := Option.some.inj hstep
    split
    · next hn =>
      unfold SaSite.dispatch
      split
      · next hnone =>
        refine Losing.of_same rfl rfl ?_
        intro i q hw
        obtain rfl : n = i := SaPoint.pipe.inj (hpoint.symm.trans hw.2.2.1)
        cases hnone.symm.trans hw.1
      · next q hq => exact write_losing hpoint hn hq
    · next hn =>
      have hevents : s.advance.events.count .overflowDrv = s.events.count .overflowDrv := by
        simp [SaSite.advance]
      refine Losing.of_same rfl hevents ?_
      intro i q hw
      obtain rfl : n = i := SaPoint.pipe.inj (hpoint.symm.trans hw.2.2.1)
      exact absurd hw.2.2.2 hn
  · next hpoint =>
    obtain rfl := Option.some.inj hstep
    refine Losing.of_same rfl rfl ?_
    intro i q hw
    cases hpoint.symm.trans hw.2.2.1

theorem step_losing {c : SaAction α} (hstep : s.step c = some u) : Losing s c u := by
  cases c with
  | interrupt a rest ovr =>
    obtain rfl := Option.some.inj hstep
    exact interrupt_losing
  | tasklet => exact tasklet_losing hstep
  | register i data =>
    change s.register i data = some u at hstep
    unfold SaSite.register at hstep
    split at hstep
    · obtain rfl := Option.some.inj hstep
      exact .of_same rfl rfl (spares_of_not_tasklet rfl nofun)
    · cases hstep
  | unregister i =>
    obtain rfl := Option.some.inj hstep
    exact .of_same rfl rfl (spares_of_not_tasklet rfl nofun)
  | read i =>
    change s.read i = some u at hstep
    unfold SaSite.read at hstep
    split at hstep
    · cases hstep
    · split at hstep
      · cases hstep
      · obtain rfl := Option.some.inj hstep
        exact .of_same rfl rfl (spares_of_not_tasklet rfl nofun)

/-- What a run does to the books of the losses. -/
theorem run_losing {tr : List (SaSite α × SaAction α)} (hrun : SaRun s tr t) :
    s.lost <+: t.lost ∧ (t.lost = s.lost ↔ ∀ x ∈ tr, Spares x.1 x.2) ∧
    t.events.count .overflowDrv = s.events.count .overflowDrv := by
  induction hrun with
  | nil => exact ⟨List.prefix_rfl, iff_of_true rfl nofun, rfl⟩
  | @snoc t u tr c hrun hstep ih =>
    obtain ⟨hearlier, hiff, hevents⟩ := ih
    have hlast := step_losing hstep
    refine ⟨hearlier.trans hlast.lost, ?_, hlast.events.trans hevents⟩
    have hall : (∀ x ∈ tr ++ [(t, c)], Spares x.1 x.2) ↔
        (∀ x ∈ tr, Spares x.1 x.2) ∧ Spares t c := by
      rw [List.forall_mem_append, List.forall_mem_singleton]
    rw [hall, ← hiff, ← hlast.lost_iff]
    constructor
    · intro hsame
      have hmiddle : t.lost = s.lost :=
        (hearlier.eq_of_length_le (hsame ▸ hlast.lost.length_le)).symm
      exact ⟨hmiddle, hsame.trans hmiddle.symm⟩
    · intro h
      exact h.2.trans h.1

/-- A device for which no loss is booked, and no overflow of the driver. -/
structure Unharmed (s : SaSite α) : Prop where
  lost : s.lost = []
  events : s.events.count .overflowDrv = 0

/-- **Every lost atom is reported exactly in the runs that lose none**: the ring has a free cell for
each atom that the handler reads, and the pipe room for each that the tasklet writes. A block is
written to a pipe as a whole or not at all iff it is not one atom longer than the room, and one that
fits is made of whole atoms. -/
theorem losses_reported_iff : (∀ (s t : SaSite α) (tr : List (SaSite α × SaAction α)), Unharmed s →
      SaRun s tr t → (Reported t ↔ ∀ x ∈ tr, Spares x.1 x.2)) ∧
    ∀ (q : SaFifo α) (buf : ℕ → α) (count : ℕ), q.WritesWhole buf count ↔
      (count ≤ q.room * saAtomSize → saAtomSize ∣ count) ∧ count ≠ (q.room + 1) * saAtomSize := by
  refine ⟨fun s t tr h hrun => ?_, fun q buf count => SaFifo.writesWhole_iff⟩
  obtain ⟨-, hiff, hevents⟩ := run_losing hrun
  rw [← hiff, h.lost]
  unfold Reported
  rw [hevents, h.events, Nat.le_zero, List.length_eq_zero_iff]

/-! ### A full pipe -/

/-- A pipe whose reader did not read for long. -/
def fullPipe : SaFifo ℕ := ⟨fun _ => 0, 63, 0, by decide, zero_lt_saLog⟩

/-- An atom that a full pipe has no room for is lost, and no overflow is reported. -/
theorem full_pipe_silent : ¬((∀ (s t : SaSite ℕ) (tr : List (SaSite ℕ × SaAction ℕ)), Unharmed s →
      SaRun s tr t → Reported t) ∧
    ∀ (q : SaFifo ℕ) (buf : ℕ → ℕ) (count : ℕ), q.WritesWhole buf count) := by
  intro h
  obtain ⟨x, hx⟩ : ∃ x, (SaSite.withReader fullPipe).steps
      [.interrupt 1 [] false, .tasklet, .tasklet] = some x :=
    Option.isSome_iff_exists.1 (by decide)
  have hlost : ∀ x ∈ (SaSite.withReader fullPipe).steps
      [.interrupt 1 [] false, .tasklet, .tasklet],
      x.2.lost = [(0, 1)] ∧ x.2.events = [] := by decide
  obtain ⟨hlost, hevents⟩ := hlost x hx
  have hreported := h.1 _ _ _ ⟨rfl, rfl⟩ (SaRun.of_steps hx)
  unfold Reported at hreported
  rw [hlost, hevents] at hreported
  exact absurd hreported (by decide)

/-- The same atom, with an empty pipe: nothing is lost. -/
theorem empty_pipe_spared : ∃ tr t, SaRun (SaSite.withReader emptyPipe) tr t ∧ tr.length = 3 ∧
    (Reported t ↔ ∀ x ∈ tr, Spares x.1 x.2) ∧
    (emptyPipe.WritesWhole (fun _ => 0) 64 ↔
      (64 ≤ emptyPipe.room * saAtomSize → saAtomSize ∣ 64) ∧
        64 ≠ (emptyPipe.room + 1) * saAtomSize) := by
  obtain ⟨x, hx⟩ : ∃ x, (SaSite.withReader emptyPipe).steps
      [.interrupt 1 [] false, .tasklet, .tasklet] = some x :=
    Option.isSome_iff_exists.1 (by decide)
  have hlength : ∀ x ∈ (SaSite.withReader emptyPipe).steps
      [.interrupt 1 [] false, .tasklet, .tasklet], x.1.length = 3 := by decide
  exact ⟨x.1, x.2, SaRun.of_steps hx, hlength x hx,
    losses_reported_iff.1 _ _ _ ⟨rfl, rfl⟩ (SaRun.of_steps hx), losses_reported_iff.2 _ _ _⟩

end LiberaDaq.Kernel
