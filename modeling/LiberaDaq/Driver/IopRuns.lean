import LiberaDaq.Driver.ReadContract

/-!
# The runs of iop

For each opcode that the commands use, the calls that `iop` makes, what it returns and the driver it
leaves. Everything that is proved about `iop` goes through these.
-/

namespace LiberaDaq

open Cspi Interaction

variable {d d' : Driver} {tr : List DrvEvent} {rc : ℤ} {o : Outcome} {out out' : IopOut}

/-! ## The common tail -/

/-- The runs of the tail while the operation is `acquire`. -/
inductive Driver.TailRun (d : Driver) : List DrvEvent → ℤ → Prop
  | refused (rc : ℤ) : rc ≠ cspiOk →
      TailRun d [cspiEvent (.setconparam d.conHandle d.setParams.p d.paramMask) rc] rc
  | connect (rc : ℤ) :
      TailRun d [cspiEvent (.setconparam d.conHandle d.setParams.p d.paramMask) cspiOk,
        cspiEvent (.connect d.conHandle) rc] rc

theorem iopTail_runs_of_ne (h : d.cfg.operation ≠ .acquire) :
    d.iopTail.Runs tr (rc, d') ↔ tr = [] ∧ rc = 0 ∧ d' = d := by
  rw [Driver.iopTail, if_neg h, Prog.runs_pure, Prod.mk.injEq, eq_comm, @eq_comm _ d]
  tauto

theorem iopTail_runs (h : d.cfg.operation = .acquire) :
    d.iopTail.Runs tr (rc, d') ↔ d.TailRun tr rc ∧ d' = d.setParams := by
  rw [Driver.iopTail, if_pos h]
  simp only [Prog.perform_bind, Prog.runs_call, Prog.runs_ite, Prog.runs_pure, Prod.mk.injEq]
  constructor
  · rintro ⟨rc₁, t₁, rfl, h⟩
    split at h
    · next hrc =>
      obtain ⟨rfl, rfl, rfl⟩ := h
      exact ⟨.refused _ hrc, rfl⟩
    · next hrc =>
      obtain ⟨rc₂, t₂, rfl, h⟩ := h
      obtain rfl : rc₁ = cspiOk := not_not.1 hrc
      have h : t₂ = [] ∧ rc = rc₂ ∧ d' = d.setParams := by split at h <;> simp_all
      obtain ⟨rfl, rfl, rfl⟩ := h
      exact ⟨.connect _, rfl⟩
  · rintro ⟨⟨_, hrc⟩ | _, rfl⟩
    · exact ⟨rc, [], rfl, by simp [hrc]⟩
    · refine ⟨cspiOk, _, rfl, ?_⟩
      rw [if_neg (not_not.2 rfl)]
      refine ⟨rc, [], rfl, ?_⟩
      split <;> simp_all

@[simp] theorem finish_runs : (d.finish out).Runs tr (o, out', d') ↔
    ∃ rc, d.iopTail.Runs tr (rc, d') ∧ o = .ret rc ∧ out' = out := by
  simp only [Driver.finish, Prog.runs_bind, Prog.runs_pure, Prod.mk.injEq]
  constructor
  · rintro ⟨t₁, t₂, ⟨rc, d₁⟩, rfl, h, rfl, rfl, rfl, rfl⟩
    exact ⟨rc, by simpa using h, rfl, rfl⟩
  · rintro ⟨rc, h, rfl, rfl⟩
    exact ⟨tr, [], (rc, d'), by simp, h, rfl, rfl, rfl, rfl⟩

theorem finish_runs_of_ne (h : d.cfg.operation ≠ .acquire) :
    (d.finish out).Runs tr (o, out', d') ↔ tr = [] ∧ o = .ret 0 ∧ out' = out ∧ d' = d := by
  simp only [finish_runs, iopTail_runs_of_ne h]
  constructor
  · rintro ⟨rc, ⟨rfl, rfl, rfl⟩, rfl, rfl⟩
    exact ⟨rfl, rfl, rfl, rfl⟩
  · rintro ⟨rfl, rfl, rfl, rfl⟩
    exact ⟨0, ⟨rfl, rfl, rfl⟩, rfl, rfl⟩

/-! ## The opcodes -/

/-- STOP disconnects and forgets the answer. -/
theorem iop_stop_runs : (d.iop .stop).Runs tr (o, out, d') ↔
    ∃ ep rc, tr = [hostEvent .uninitEnv ep, cspiEvent (.disconnect d.conHandle) rc] ∧
      o = .ret 0 ∧ out = .none ∧ d' = d.setOperation .unknown := by
  have h : (d.setOperation .unknown).cfg.operation ≠ .acquire := by simp
  simp only [Driver.iop, Prog.perform_bind, Prog.runs_call, finish_runs_of_ne h]
  constructor
  · rintro ⟨ep, _, rfl, rc, _, rfl, rfl, h⟩
    exact ⟨ep, rc, rfl, h⟩
  · rintro ⟨ep, rc, rfl, h⟩
    exact ⟨ep, _, rfl, rc, [], rfl, rfl, h⟩

/-- GET_TS asks for the time stamp and changes nothing. -/
theorem iop_getTs_runs : (d.iop .getTs).Runs tr (o, out, d') ↔
    ∃ ep rc ts, tr = [hostEvent .uninitEnv ep, cspiEvent (.gettimestamp d.conHandle) (rc, ts)] ∧
      o = .ret rc ∧ out = (if rc = cspiOk then .ts ts else .none) ∧ d' = d := by
  simp only [Driver.iop, Prog.perform_bind, Prog.runs_call]
  constructor
  · rintro ⟨ep, _, rfl, ⟨rc, ts⟩, _, rfl, h⟩
    refine ⟨ep, rc, ts, ?_⟩
    split at h <;> simp_all
  · rintro ⟨ep, rc, ts, rfl, rfl, rfl, rfl⟩
    refine ⟨ep, _, rfl, (rc, ts), [], rfl, ?_⟩
    split <;> simp_all

/-- GETENV makes the operation `listenv`, whatever the library answers. -/
theorem iop_getenv_runs : (d.iop .getenv).Runs tr (o, out, d') ↔
    ∃ ep env x, tr = [hostEvent .uninitEnv ep, hostEvent .uninitEnv env,
        cspiEvent (.getenvparam d.envHandle env (~~~0)) x] ∧
      o = .ret x.1 ∧ out = (if x.1 = cspiOk then .env x.2 else .none) ∧
      d' = d.setOperation .listenv := by
  have h : (d.setOperation .listenv).cfg.operation ≠ .acquire := by simp
  simp only [Driver.iop, Driver.getenv, Prog.perform_bind, Prog.call_bind, Prog.pure_bind',
    Prog.runs_call, Prog.runs_ite, Prog.runs_pure, finish_runs_of_ne h, Prod.mk.injEq]
  refine ⟨fun h => ?_, fun h => ?_⟩
  · obtain ⟨ep, _, rfl, env, _, rfl, x, _, rfl, h⟩ := h
    refine ⟨ep, env, x, ?_⟩
    split at h <;> simp_all
  · obtain ⟨ep, env, x, rfl, rfl, rfl, rfl⟩ := h
    refine ⟨ep, _, rfl, env, _, rfl, x, [], rfl, ?_⟩
    split <;> simp_all

theorem iop_setSamples_runs (h : d.cfg.operation ≠ .acquire) {v : Word} :
    (d.iop (.setSamples v)).Runs tr (o, out, d') ↔
      ∃ ep, tr = [hostEvent .uninitEnv ep] ∧ o = .ret 0 ∧ out = .none ∧ d' = d.setSamples v := by
  have h : (d.setSamples v).cfg.operation ≠ .acquire := h
  simp only [Driver.iop, Prog.perform_bind, Prog.runs_call, finish_runs_of_ne h]
  constructor
  · rintro ⟨ep, _, rfl, rfl, h⟩
    exact ⟨ep, rfl, h⟩
  · rintro ⟨ep, rfl, h⟩
    exact ⟨ep, _, rfl, rfl, h⟩

theorem iop_setOffset_runs (h : d.cfg.operation ≠ .acquire) {v : Word} :
    (d.iop (.setOffset v)).Runs tr (o, out, d') ↔
      ∃ ep, tr = [hostEvent .uninitEnv ep] ∧ o = .ret 0 ∧ out = .none ∧ d' = d.setOffset v := by
  have h : (d.setOffset v).cfg.operation ≠ .acquire := h
  simp only [Driver.iop, Prog.perform_bind, Prog.runs_call, finish_runs_of_ne h]
  constructor
  · rintro ⟨ep, _, rfl, rfl, h⟩
    exact ⟨ep, rfl, h⟩
  · rintro ⟨ep, rfl, h⟩
    exact ⟨ep, _, rfl, rfl, h⟩

/-- The driver after the mode word of ACQUIRE was taken over. -/
def Driver.acquired (d : Driver) (w : Word) : Driver :=
  { d with driverMode := w, cfg := acquireConfig w d.cfg }

/-- The calls of ACQUIRE before the tail: without a trigger, the trigger mode `0` is asked for. -/
inductive Driver.ModeRun (d : Driver) (w : Word) (ep : EnvParams) : List DrvEvent → Prop
  | triggered : hits w liberaIopModeTriggered → ModeRun d w ep []
  | untriggered (x : ℤ × EnvParams) : ¬hits w liberaIopModeTriggered →
      ModeRun d w ep [cspiEvent (.setenvparam d.envHandle (ep.set .trigMode 0) envTrigmode) x]

theorem acquire_runs {ep : EnvParams} {w : Word} :
    (d.acquire ep w).Runs tr d' ↔ d.ModeRun w ep tr ∧ d' = d.acquired w := by
  simp only [Driver.acquire, Prog.perform_bind, Prog.runs_ite, Prog.runs_pure, Prog.runs_call]
  constructor
  · intro h
    split at h
    · next hw =>
      obtain ⟨rfl, rfl⟩ := h
      exact ⟨.triggered hw, rfl⟩
    · next hw =>
      obtain ⟨x, _, rfl, rfl, rfl⟩ := h
      exact ⟨.untriggered x hw, rfl⟩
  · rintro ⟨hw | ⟨x, hw⟩, rfl⟩
    · rw [if_pos hw]
      exact ⟨rfl, rfl⟩
    · rw [if_neg hw]
      exact ⟨x, [], rfl, rfl, rfl⟩

/-- ACQUIRE takes the mode word over and goes through the tail. -/
theorem iop_acquire_runs {w : Word} : (d.iop (.acquire w)).Runs tr (o, out, d') ↔
    ∃ ep t₁ t₂ rc, tr = hostEvent .uninitEnv ep :: (t₁ ++ t₂) ∧ d.ModeRun w ep t₁ ∧
      (d.acquired w).iopTail.Runs t₂ (rc, d') ∧ o = .ret rc ∧ out = .none := by
  simp only [Driver.iop, Prog.perform_bind, Prog.runs_call, Prog.runs_bind, acquire_runs,
    finish_runs]
  constructor
  · rintro ⟨ep, _, rfl, t₁, t₂, _, rfl, ⟨h₁, rfl⟩, rc, h₂, h⟩
    exact ⟨ep, t₁, t₂, rc, rfl, h₁, h₂, h⟩
  · rintro ⟨ep, t₁, t₂, rc, rfl, h₁, h₂, h⟩
    exact ⟨ep, _, rfl, t₁, t₂, _, rfl, ⟨h₁, rfl⟩, rc, h₂, h⟩

end LiberaDaq
