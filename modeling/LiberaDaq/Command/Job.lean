import LiberaDaq.Command.Station

/-!
# The command alone

A `Job` is a command object over its interface: the calls of the driver and of the framework, each
with any answer. What the command does whatever driver it is given is proved of its histories. A
station is a job whose calls of the driver the driver below it answers (`station_valid`), so that
the histories of a station are among those of its job (`job_history`).
-/

namespace LiberaDaq

open Cspi Interaction
open Interaction.Prog hiding pure bind

/-- A command object. `threw` says that its last handler threw. -/
structure Job where
  cmd : AcquireCmd
  threw : Bool

/-- The scheduler goes on calling `acquireHandler`. -/
def Job.live (j : Job) : Prop := j.cmd.running = .normal ∧ j.threw = false

instance (j : Job) : Decidable j.live := inferInstanceAs (Decidable (_ ∧ _))

/-- The command is in its end state, or failed. -/
def Job.Ended (j : Job) : Prop := j.cmd.running = .ended ∨ j.threw = true

theorem Job.Ended.not_live {j : Job} (h : j.Ended) : ¬j.live := by
  rintro ⟨hrun, hthrew⟩
  rcases h with h | h
  · rw [hrun] at h
    cases h
  · rw [hthrew] at h
    cases h

/-- The job that a handler leaves. -/
def Job.leave (x : Exit × AcquireCmd) : Exit × Job := (x.1, { cmd := x.2, threw := x.1 ≠ .return })

/-- The operations of a command. -/
def Job.step : StationOp → Job → CmdProg (Exit × Job)
  | .set r, j => j.cmd.setHandler r >>= fun x => pure (Job.leave x)
  | .acquire, j =>
    if j.live then j.cmd.acquireHandler >>= fun x => pure (Job.leave x) else pure (.return, j)

/-- A call of the command with its answer. -/
abbrev CmdEvent := Event CmdCall CmdAns

/-- A move of a command. -/
abbrev JobMove := Move StationOp Exit Job CmdEvent

/-! ## On top of the driver -/

/-- The command of a station. -/
def Station.job (s : Station) : Job := { cmd := s.cmd, threw := s.threw }

/-- The station of a command and a driver. -/
def Job.station (j : Job) (d : Driver) : Station := { cmd := j.cmd, driver := d, threw := j.threw }

theorem station_step (op : StationOp) (s : Station) :
    Station.step op s = (Job.step op s.job).interp unitImpl s.driver >>= fun x =>
      pure (x.1.1, x.1.2.station x.2) := by
  cases op with
  | set r =>
    rw [Station.step, Job.step, interp_bind, bind_assoc']
    rfl
  | acquire =>
    rw [Station.step, Job.step, interp_ite]
    by_cases h : s.live
    · have h' : s.job.live := h
      rw [if_pos h, if_pos h', interp_bind, bind_assoc']
      rfl
    · have h' : ¬s.job.live := h
      rw [if_neg h, if_neg h']
      rfl

/-- **A move of a station** is a move of its command in which the driver answered. -/
theorem station_valid {m : StationMove} : m.Valid Station.step ↔
    ∃ tr, Move.Valid Job.step ⟨m.op, m.before.job, tr, m.result, m.after.job⟩ ∧
      Answered unitImpl m.before.driver tr m.events m.after.driver := by
  obtain ⟨op, s, ev, r, s'⟩ := m
  rw [Move.Valid, station_step, runs_bind_pure]
  refine ⟨fun h => ?_, fun h => ?_⟩
  · obtain ⟨⟨⟨r', j⟩, d⟩, h, he⟩ := h
    obtain ⟨rfl, rfl⟩ := Prod.mk.inj he
    exact runs_interp.1 h
  · obtain ⟨tr, h, ha⟩ := h
    exact ⟨((r, s'.job), s'.driver), runs_interp.2 ⟨tr, h, ha⟩, rfl⟩

/-- A move of a station and the move of its command. -/
structure Carries (m : StationMove) (m' : JobMove) : Prop where
  op : m'.op = m.op
  result : m'.result = m.result
  before : m'.before = m.before.job
  after : m'.after = m.after.job
  answered : Answered unitImpl m.before.driver m'.events m.events m.after.driver

/-- The history of a station is one of its command. -/
theorem job_history {s s' : Station} {ms : List StationMove} (h : History Station.step s ms s') :
    ∃ ms', History Job.step s.job ms' s'.job ∧ List.Forall₂ Carries ms ms' := by
  induction h with
  | nil s => exact ⟨[], .nil _, .nil⟩
  | @cons m ms s hm _ ih =>
    obtain ⟨ms', hh, hall⟩ := ih
    obtain ⟨tr, hv, ha⟩ := station_valid.1 hm
    exact ⟨⟨m.op, m.before.job, tr, m.result, m.after.job⟩ :: ms', .cons hv hh,
      .cons ⟨rfl, rfl, rfl, rfl, ha⟩ hall⟩

/-! ## The moves of a command -/

variable {m : JobMove} {r : Request}

/-- A request runs `setHandler`. -/
theorem job_set (h : m.Valid Job.step) (hop : m.op = .set r) :
    (m.before.cmd.setHandler r).Runs m.events (m.result, m.after.cmd) ∧
      (m.after.threw = true ↔ m.result ≠ .return) := by
  rw [Move.Valid, hop, Job.step, runs_bind_pure] at h
  obtain ⟨⟨e, c⟩, h, he⟩ := h
  obtain ⟨hr, ha⟩ := Prod.mk.inj he
  rw [← ha, ← hr]
  exact ⟨h, decide_eq_true_iff⟩

/-- A turn of a live command runs `acquireHandler`. -/
theorem job_turn (h : m.Valid Job.step) (hop : m.op = .acquire) (hl : m.before.live) :
    m.before.cmd.acquireHandler.Runs m.events (m.result, m.after.cmd) ∧
      (m.after.threw = true ↔ m.result ≠ .return) := by
  rw [Move.Valid, hop, Job.step, if_pos hl, runs_bind_pure] at h
  obtain ⟨⟨e, c⟩, h, he⟩ := h
  obtain ⟨hr, ha⟩ := Prod.mk.inj he
  rw [← ha, ← hr]
  exact ⟨h, decide_eq_true_iff⟩

/-- A turn of a command that is not live does nothing. -/
theorem job_idle (h : m.Valid Job.step) (hop : m.op = .acquire) (hl : ¬m.before.live) :
    m.events = [] ∧ m.after = m.before := by
  rw [Move.Valid, hop, Job.step, if_neg hl] at h
  exact ⟨h.1, (Prod.mk.inj h.2).2.symm⟩

end LiberaDaq
