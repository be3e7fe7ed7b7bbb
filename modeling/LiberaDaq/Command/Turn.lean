import LiberaDaq.Command.Station
import LiberaDaq.Driver.IopRuns

/-!
# A turn of the acquire command

The runs of `acquireHandler` on top of the driver (`turn_runs`). A turn asks the driver for a time
stamp, looks up the attribute it reads into, reads, and ends by stopping the driver, by throwing
after it stopped the driver, or by going on.
-/

namespace LiberaDaq

open Cspi Interaction Prog

/-- The events of the driver below a station. -/
abbrev driverEvents (tr : List DrvEvent) : List UnitEvent := tr.map leftEvent

/-- The event of a call of the framework. -/
abbrev frameEvent (c : FrameCall) (x : FrameAns c) : UnitEvent := ⟨.inr c, x⟩

variable {c c' : AcquireCmd} {d d' : Driver} {t : List UnitEvent} {e : Exit} {rc : ℤ} {out : IopOut}

/-! ## The calls -/

theorem unit_iop_runs {r : IopRequest} :
    (unitImpl (.inl (.iop r)) d).Runs t ((rc, out), d') ↔
      ∃ tr o, t = driverEvents tr ∧ (d.iop r).Runs tr (o, out, d') ∧ rc = o.code := by
  rw [unitImpl, runs_beside_left]
  simp only [driverImpl, runs_bind, runs_pure, Prod.mk.injEq]
  constructor
  · rintro ⟨_, rfl, tr, _, ⟨o, _, _⟩, rfl, h, rfl, ⟨rfl, rfl⟩, rfl⟩
    exact ⟨tr, o, by simp, h, rfl⟩
  · rintro ⟨tr, o, rfl, h, rfl⟩
    exact ⟨tr, rfl, tr, [], (o, out, d'), by simp, h, rfl, ⟨rfl, rfl⟩, rfl⟩

theorem unit_read_runs {buffer : Buffer} {addr : ℤ} {n : Word} {r : ReadOutcome} :
    (unitImpl (.inl (.read buffer addr n)) d).Runs t (r, d') ↔
      ∃ tr, t = driverEvents tr ∧ d.ReadRun buffer addr n tr r ∧ d' = d := by
  rw [unitImpl, runs_beside_left]
  simp only [driverImpl, runs_bind, runs_pure, Prod.mk.injEq, read_runs]
  constructor
  · rintro ⟨_, rfl, tr, _, _, rfl, h, rfl, rfl, rfl⟩
    exact ⟨tr, by simp, h, rfl⟩
  · rintro ⟨tr, rfl, h, rfl⟩
    exact ⟨tr, rfl, tr, [], r, by simp, h, rfl, rfl, rfl⟩

theorem unit_frame_runs {f : FrameCall} {x : FrameAns f} :
    (unitImpl (.inr f) d).Runs t (x, d') ↔ t = [frameEvent f x] ∧ d' = d :=
  runs_beside_right

/-- The events of STOP. -/
abbrev Driver.stopEvents (d : Driver) (ep : EnvParams) (rc : ℤ) : List UnitEvent :=
  driverEvents [hostEvent .uninitEnv ep, cspiEvent (.disconnect d.conHandle) rc]

/-- The events of GET_TS. -/
abbrev Driver.tsEvents (d : Driver) (ep : EnvParams) (x : ℤ × Timestamp) : List UnitEvent :=
  driverEvents [hostEvent .uninitEnv ep, cspiEvent (.gettimestamp d.conHandle) x]

theorem unit_stop_runs : (unitImpl (.inl (.iop .stop)) d).Runs t ((rc, out), d') ↔
    ∃ ep x, t = d.stopEvents ep x ∧ rc = 0 ∧ out = .none ∧ d' = d.setOperation .unknown := by
  refine unit_iop_runs.trans ?_
  simp only [iop_stop_runs]
  constructor
  · rintro ⟨_, _, rfl, ⟨ep, x, rfl, rfl, rfl, rfl⟩, rfl⟩
    exact ⟨ep, x, rfl, rfl, rfl, rfl⟩
  · rintro ⟨ep, x, rfl, rfl, rfl, rfl⟩
    exact ⟨_, _, rfl, ⟨ep, x, rfl, rfl, rfl, rfl⟩, rfl⟩

/-- What GET_TS writes. -/
def tsOut (x : ℤ × Timestamp) : IopOut := if x.1 = cspiOk then .ts x.2 else .none

theorem unit_getTs_runs : (unitImpl (.inl (.iop .getTs)) d).Runs t ((rc, out), d') ↔
    ∃ ep x, t = d.tsEvents ep x ∧ rc = x.1 ∧ out = tsOut x ∧ d' = d := by
  refine unit_iop_runs.trans ?_
  simp only [iop_getTs_runs]
  constructor
  · rintro ⟨_, _, rfl, ⟨ep, x, ts, rfl, rfl, rfl, rfl⟩, rfl⟩
    exact ⟨ep, (rc, ts), rfl, rfl, rfl, rfl⟩
  · rintro ⟨ep, x, rfl, rfl, rfl, rfl⟩
    exact ⟨_, _, rfl, ⟨ep, _, _, rfl, rfl, rfl, rfl⟩, rfl⟩

/-! ## The end of a turn -/

/-- The runs of `acquireHandler` after the read. The driver returns `0` for every STOP. -/
inductive AcquireCmd.FinishRun (c : AcquireCmd) (d : Driver) :
    List UnitEvent → Exit → AcquireCmd → Driver → Prop
  | ended (ep : EnvParams) (x : ℤ) : c.loops = 0 ∨ c.out.mode = 0 →
      FinishRun c d (d.stopEvents ep x) .return (c.publishMode 0).end (d.setOperation .unknown)
  | failed (ep : EnvParams) (x : ℤ) : ¬(c.loops = 0 ∨ c.out.mode = 0) → c.countDown.out.error ≠ 0 →
      FinishRun c d (d.stopEvents ep x) (.throw c.countDown.out.error.toInt "Error Acquiring")
        (c.countDown.publishMode 0).end (d.setOperation .unknown)
  | goesOn : ¬(c.loops = 0 ∨ c.out.mode = 0) → c.countDown.out.error = 0 →
      FinishRun c d [] .return c.countDown d

theorem finish_turn_runs : (c.finish.interp unitImpl d).Runs t ((e, c'), d') ↔
    c.FinishRun d t e c' d' := by
  simp only [AcquireCmd.finish, perform_bind, interp_ite, interp_call, interp_pure, runs_ite,
    runs_bind, runs_pure, Prod.mk.injEq]
  constructor
  · intro h
    split at h
    · next hend =>
      obtain ⟨_, _, ⟨⟨rc, out⟩, d₁⟩, rfl, h, rfl, ⟨rfl, rfl⟩, rfl⟩ := h
      obtain ⟨ep, x, rfl, rfl, rfl, rfl⟩ := unit_stop_runs.1 h
      rw [List.append_nil]
      exact .ended ep x hend
    · next hend =>
      split at h
      · next herr =>
        obtain ⟨_, _, ⟨⟨rc, out⟩, d₁⟩, rfl, h, rfl, ⟨rfl, rfl⟩, rfl⟩ := h
        obtain ⟨ep, x, rfl, rfl, rfl, rfl⟩ := unit_stop_runs.1 h
        rw [List.append_nil]
        exact .failed ep x hend herr
      · next herr =>
        obtain ⟨rfl, ⟨rfl, rfl⟩, rfl⟩ := h
        exact .goesOn hend (not_not.1 herr)
  · rintro (⟨ep, x, hend⟩ | ⟨ep, x, hend, herr⟩ | ⟨hend, herr⟩)
    · rw [if_pos hend]
      exact ⟨_, [], ((0, .none), _), by simp, unit_stop_runs.2 ⟨ep, x, rfl, rfl, rfl, rfl⟩, rfl,
        ⟨rfl, rfl⟩, rfl⟩
    · rw [if_neg hend, if_pos herr]
      exact ⟨_, [], ((0, .none), _), by simp, unit_stop_runs.2 ⟨ep, x, rfl, rfl, rfl, rfl⟩, rfl,
        ⟨rfl, rfl⟩, rfl⟩
    · rw [if_neg hend, if_neg (not_not.2 herr)]
      exact ⟨rfl, ⟨rfl, rfl⟩, rfl⟩

/-! ## The read of a turn -/

/-- The command after GET_TS. -/
def AcquireCmd.stamped (c : AcquireCmd) (x : ℤ × Timestamp) : AcquireCmd :=
  if x.1 = 0 then c.stamp (tsOut x) else c

section

variable (c : AcquireCmd) (x : ℤ × Timestamp)

theorem AcquireCmd.stamped_eq : ∃ mt st,
    c.stamped x = { c with out := { c.out with mt := mt, st := st } } := by
  unfold AcquireCmd.stamped tsOut
  split
  · exact ⟨_, _, rfl⟩
  · exact ⟨c.out.mt, c.out.st, rfl⟩

@[simp] theorem AcquireCmd.stamped_mode : (c.stamped x).mode = c.mode := by
  obtain ⟨mt, st, h⟩ := c.stamped_eq x
  rw [h]

@[simp] theorem AcquireCmd.stamped_samples : (c.stamped x).samples = c.samples := by
  obtain ⟨mt, st, h⟩ := c.stamped_eq x
  rw [h]

@[simp] theorem AcquireCmd.stamped_loops : (c.stamped x).loops = c.loops := by
  obtain ⟨mt, st, h⟩ := c.stamped_eq x
  rw [h]

@[simp] theorem AcquireCmd.stamped_running : (c.stamped x).running = c.running := by
  obtain ⟨mt, st, h⟩ := c.stamped_eq x
  rw [h]

@[simp] theorem AcquireCmd.stamped_error : (c.stamped x).out.error = c.out.error := by
  obtain ⟨mt, st, h⟩ := c.stamped_eq x
  rw [h]

@[simp] theorem AcquireCmd.stamped_acquisition :
    (c.stamped x).out.acquisition = c.out.acquisition := by
  obtain ⟨mt, st, h⟩ := c.stamped_eq x
  rw [h]

@[simp] theorem AcquireCmd.stamped_bcount (a : Attr) : (c.stamped x).bcount a = c.bcount a := by
  rw [AcquireCmd.bcount, AcquireCmd.stamped_samples, AcquireCmd.bcount]

end

/-- The buffer that a pointer of the attribute cache stands for. -/
def Attr.buffer (a : Attr) (ptr : Bool) : Buffer := if ptr then some a.name else none

/-- The pointers with which `acquireHandler` comes to call `read`. -/
def Attr.readable (a : Attr) (ptr : Bool) : Prop := ptr = true ∨ a ≠ .dd

/-- The runs of `acquireHandler` after the test of the duration. -/
inductive AcquireCmd.IterateRun (c : AcquireCmd) (d : Driver) :
    List UnitEvent → Exit → AcquireCmd → Driver → Prop
  | missing (ep : EnvParams) (x : ℤ × Timestamp) : readAttr c.mode = some .dd →
      IterateRun c d (d.tsEvents ep x ++ [frameEvent (.getRWPtr .dd) false]) .return
        (((c.stamped x).publishMode 0).raise liberaErrorAllocateDataset).end d
  | unread (ep : EnvParams) (x : ℤ × Timestamp) {t : List UnitEvent} {e : Exit} {c' : AcquireCmd}
      {d' : Driver} : readAttr c.mode = none → (c.stamped x).FinishRun d t e c' d' →
      IterateRun c d (d.tsEvents ep x ++ t) e c' d'
  | read (ep : EnvParams) (x : ℤ × Timestamp) (a : Attr) (ptr : Bool) {tr : List DrvEvent}
      {r : ReadOutcome} {t : List UnitEvent} {e : Exit} {c' : AcquireCmd} {d' : Driver} :
      readAttr c.mode = some a → a.readable ptr → ¬(0 ≤ r.ret ∧ ptr = false ∧ a = .sa) →
      d.ReadRun (a.buffer ptr) channelDd (c.bcount a) tr r →
      ((c.stamped x).took a ptr r).FinishRun d t e c' d' →
      IterateRun c d
        (d.tsEvents ep x ++ frameEvent (.getRWPtr a) ptr :: (driverEvents tr ++ t)) e c' d'

/-- The runs of `acquireHandler`. -/
inductive AcquireCmd.TurnRun (c : AcquireCmd) (d : Driver) :
    List UnitEvent → Exit → AcquireCmd → Driver → Prop
  | expired (now : BitVec 64) : c.acquireDuration ≠ 0 → c.expired now →
      TurnRun c d [frameEvent .now now] .return (c.publishMode 0).end d
  | timed (now : BitVec 64) {t : List UnitEvent} {e : Exit} {c' : AcquireCmd} {d' : Driver} :
      c.acquireDuration ≠ 0 → ¬c.expired now → c.IterateRun d t e c' d' →
      TurnRun c d (frameEvent .now now :: t) e c' d'
  | untimed {t : List UnitEvent} {e : Exit} {c' : AcquireCmd} {d' : Driver} :
      c.acquireDuration = 0 → c.IterateRun d t e c' d' → TurnRun c d t e c' d'

theorem readInto_runs {a : Attr} {ptr : Bool}
    (h : ((c.readInto a ptr).interp unitImpl d).Runs t (c', d')) :
    ∃ tr r, t = driverEvents tr ∧ d.ReadRun (a.buffer ptr) channelDd (c.bcount a) tr r ∧
      ¬(0 ≤ r.ret ∧ ptr = false ∧ a = .sa) ∧ c' = c.took a ptr r ∧ d' = d := by
  simp only [AcquireCmd.readInto, perform_bind, interp_ite, interp_call, interp_pure, runs_ite,
    runs_bind, runs_pure, Prod.mk.injEq] at h
  obtain ⟨_, t₂, ⟨r, d₁⟩, rfl, h, hr⟩ := h
  obtain ⟨tr, rfl, h, rfl⟩ := unit_read_runs.1 h
  split at hr
  · obtain ⟨_, _, ⟨x, _⟩, -⟩ := hr
    exact x.elim
  · next hn =>
    obtain ⟨rfl, rfl, rfl⟩ := hr
    exact ⟨tr, r, by simp, h, hn, rfl, rfl⟩

theorem iterate_runs (h : (c.iterate.interp unitImpl d).Runs t ((e, c'), d')) :
    c.IterateRun d t e c' d' := by
  simp only [AcquireCmd.iterate, perform_bind, interp_call, interp_bind, runs_bind] at h
  obtain ⟨_, _, ⟨⟨rc, out⟩, d₁⟩, rfl, hts, t₁, t₂, ⟨o, d₂⟩, rfl, hacq, hrest⟩ := h
  obtain ⟨ep, x, rfl, rfl, rfl, rfl⟩ := unit_getTs_runs.1 hts
  change ((c.stamped x).acquire.interp unitImpl d₁).Runs t₁ (o, d₂) at hacq
  unfold AcquireCmd.acquire at hacq
  rw [AcquireCmd.stamped_mode] at hacq
  split at hacq
  · next hattr =>
    obtain ⟨rfl, h⟩ := hacq
    obtain ⟨rfl, rfl⟩ := Prod.mk.inj h
    exact .unread ep x hattr (finish_turn_runs.1 hrest)
  · next a hattr =>
    simp only [perform_bind, interp_ite, interp_call, interp_pure, runs_ite, interp_bind,
      runs_bind, runs_pure, Prod.mk.injEq] at hacq
    obtain ⟨_, _, ⟨ptr, d₃⟩, rfl, hptr, hread⟩ := hacq
    obtain ⟨rfl, rfl⟩ := unit_frame_runs.1 hptr
    split at hread
    · next hdd =>
      obtain ⟨rfl, rfl, rfl⟩ := hread
      simp only [Bool.and_eq_true, Bool.not_eq_true', decide_eq_true_eq] at hdd
      obtain ⟨rfl, rfl⟩ := hdd
      obtain ⟨rfl, h⟩ := hrest
      obtain ⟨⟨rfl, rfl⟩, rfl⟩ := Prod.mk.inj h |>.imp_left Prod.mk.inj
      simpa [AcquireCmd.stamped] using AcquireCmd.IterateRun.missing ep x hattr
    · next hdd =>
      obtain ⟨_, _, ⟨c₁, d₄⟩, rfl, hinto, rfl, rfl, rfl⟩ := hread
      obtain ⟨tr, r, rfl, hr, hn, rfl, rfl⟩ := readInto_runs hinto
      rw [AcquireCmd.stamped_bcount] at hr
      have hptr : a.readable ptr := by
        simpa [Attr.readable, or_iff_not_imp_left] using hdd
      simpa using AcquireCmd.IterateRun.read ep x a ptr hattr hptr hn hr (finish_turn_runs.1 hrest)

/-- **The runs of `acquireHandler`.** -/
theorem turn_runs (h : (c.acquireHandler.interp unitImpl d).Runs t ((e, c'), d')) :
    c.TurnRun d t e c' d' := by
  unfold AcquireCmd.acquireHandler at h
  split at h
  · next hdur =>
    simp only [perform_bind, interp_ite, interp_call, interp_pure, runs_ite, runs_bind,
      runs_pure, Prod.mk.injEq] at h
    obtain ⟨_, _, ⟨now, d₁⟩, rfl, hnow, h⟩ := h
    obtain ⟨rfl, rfl⟩ := unit_frame_runs.1 hnow
    split at h
    · next hexp =>
      obtain ⟨rfl, ⟨rfl, rfl⟩, rfl⟩ := h
      exact .expired now hdur hexp
    · next hexp => exact .timed now hdur hexp (iterate_runs h)
  · next hdur => exact .untimed (not_not.1 hdur) (iterate_runs h)

end LiberaDaq
