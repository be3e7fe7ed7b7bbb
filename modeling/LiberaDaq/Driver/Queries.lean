import LiberaDaq.Driver.IopRuns

/-!
# Queries during an acquisition

Two commands share the driver: one acquires, the other asks for the environment or the time stamp.
GET_TS leaves the driver alone. GETENV is a query as well, but it makes the operation `listenv`, and
`read` returns `0` from then on. `query_contract` says this for a single query and for whole
histories.
-/

namespace LiberaDaq

open Cspi Interaction

/-- The opcodes that ask the driver for something. -/
def IopRequest.isQuery : IopRequest → Bool
  | .getenv | .getTs => true
  | _ => false

/-- The call of the driver is a query. -/
def DriverOp.isQuery : DriverOp → Bool
  | .iop q => q.isQuery
  | _ => false

/-- A query `q` does not disturb the driver: every read after it makes the calls, returns the result
and stores the data that it would have without the query, and leaves the same driver. -/
def Driver.Undisturbed (d : Driver) (q : IopRequest) : Prop :=
  ∀ tr o out d', (d.iop q).Runs tr (o, out, d') → d' = d ∧
    ∀ buffer addr n t r, (d'.read buffer addr n).Runs t r ↔ (d.read buffer addr n).Runs t r

variable {d d' : Driver} {q : IopRequest} {m : DriverMove} {ms : List DriverMove}

theorem DriverOp.isQuery_iff {op : DriverOp} :
    op.isQuery ↔ op = .iop .getenv ∨ op = .iop .getTs := by
  cases op with
  | iop q => cases q <;> simp [DriverOp.isQuery, IopRequest.isQuery]
  | _ => simp [DriverOp.isQuery]

/-- GET_TS disturbs nothing. -/
theorem undisturbed_getTs : d.Undisturbed .getTs := by
  intro tr o out d' h
  obtain ⟨-, -, -, -, -, -, rfl⟩ := iop_getTs_runs.1 h
  exact ⟨rfl, fun _ _ _ _ _ => Iff.rfl⟩

/-- After GETENV the driver is no longer acquiring. -/
theorem iop_getenv_operation {tr : List DrvEvent} {o : Outcome} {out : IopOut}
    (h : (d.iop .getenv).Runs tr (o, out, d')) : d'.cfg.operation = .listenv := by
  obtain ⟨-, -, -, -, -, -, rfl⟩ := iop_getenv_runs.1 h
  rfl

/-- GETENV disturbs every acquisition. -/
theorem not_undisturbed_getenv (h : d.acquiring) : ¬d.Undisturbed .getenv := by
  intro hu
  have hrun : (d.iop .getenv).Runs _ (.ret cspiOk, .env zeroEnv, d.setOperation .listenv) :=
    iop_getenv_runs.2 ⟨zeroEnv, zeroEnv, (cspiOk, zeroEnv), rfl, rfl, rfl, rfl⟩
  have hd := (hu _ _ _ _ hrun).1
  rw [← hd] at h
  cases h.1

theorem undisturbed_iff (h : d.acquiring) (hq : q.isQuery) : d.Undisturbed q ↔ q = .getTs := by
  cases q with
  | getenv => exact iff_of_false (not_undisturbed_getenv h) (by simp)
  | getTs => exact iff_of_true undisturbed_getTs rfl
  | _ => cases hq

/-! ## Interleavings -/

theorem move_getTs (h : m.Valid Driver.step) (hop : m.op = .iop .getTs) : m.after = m.before := by
  obtain ⟨o, out, -, h⟩ := move_iop h hop
  exact (undisturbed_getTs _ _ _ _ h).1

theorem move_getenv (h : m.Valid Driver.step) (hop : m.op = .iop .getenv) :
    m.after.cfg.operation = .listenv := by
  obtain ⟨o, out, -, h⟩ := move_iop h hop
  exact iop_getenv_operation h

/-- The moves of a history that are not queries. -/
def withoutQueries (ms : List DriverMove) : List DriverMove := ms.filter fun m => !m.op.isQuery

/-- If the moves that are no queries fit together without the queries, then no query was GETENV. -/
theorem no_getenv_of_withoutQueries (h : History Driver.step d ms d')
    (hq : ∀ m ∈ ms, m.op.isQuery → m.before.acquiring)
    (hw : History Driver.step d (withoutQueries ms) d') : ∀ m ∈ ms, m.op ≠ .iop .getenv := by
  induction h with
  | nil => simp
  | @cons m ms d' hm hrest ih =>
    have hq' : ∀ m ∈ ms, m.op.isQuery → m.before.acquiring :=
      fun m' hm' => hq m' (List.mem_cons_of_mem _ hm')
    rw [List.forall_mem_cons]
    by_cases hmq : m.op.isQuery
    · have hacq := hq m List.mem_cons_self hmq
      rw [withoutQueries, List.filter_cons_of_neg (by simp [hmq])] at hw
      rcases DriverOp.isQuery_iff.1 hmq with hop | hop
      · -- after GETENV the next move starts from another state than without it
        exfalso
        have hlist := move_getenv hm hop
        have hne : m.before ≠ m.after := fun he => by
          rw [he, Driver.acquiring, hlist] at hacq
          cases hacq.1
        cases ms with
        | nil =>
          have hend := (History.nil_iff.1 hrest).symm.trans (History.nil_iff.1 hw)
          exact hne hend.symm
        | cons m' ms' =>
          have hbefore := (History.cons_iff.1 hrest).1
          by_cases hmq' : m'.op.isQuery
          · have hacq' := (hq' m' List.mem_cons_self hmq').1
            rw [hbefore, hlist] at hacq'
            cases hacq'
          · rw [List.filter_cons_of_pos (by simp [hmq'])] at hw
            exact hne ((History.cons_iff.1 hw).1.symm.trans hbefore)
      · refine ⟨by simp [hop], ih hq' ?_⟩
        rw [move_getTs hm hop]
        exact hw
    · rw [withoutQueries, List.filter_cons_of_pos (by simp [hmq])] at hw
      exact ⟨fun hop => hmq (by rw [hop]; rfl), ih hq' (History.cons_iff.1 hw).2.2⟩

/-- **Queries and acquisitions.** A query does not disturb an active acquisition exactly when it is
GET_TS. A history in which every query comes during an active acquisition is, without the queries, a
history of the same moves with the same calls, answers and results, exactly when none of them is
GETENV. -/
theorem query_contract (d d' : Driver) (q : IopRequest) (ms : List DriverMove) :
    (d.acquiring → q.isQuery → (d.Undisturbed q ↔ q = .getTs)) ∧
    (History Driver.step d ms d' → (∀ m ∈ ms, m.op.isQuery → m.before.acquiring) →
      (History Driver.step d (withoutQueries ms) d' ↔ ∀ m ∈ ms, m.op ≠ .iop .getenv)) := by
  refine ⟨undisturbed_iff, fun h hq =>
    ⟨no_getenv_of_withoutQueries h hq, fun hn => h.filter fun m hm hk => ?_⟩⟩
  have hmq : m.op.isQuery := by simpa using hk
  exact move_getTs (h.valid m hm) ((DriverOp.isQuery_iff.1 hmq).resolve_left (hn m hm))

/-- During an acquisition of `DD`, GETENV makes the next reads return `0`. -/
theorem getenv_disturbs : ¬∀ (d : Driver) (q : IopRequest), d.acquiring → q.isQuery →
    d.Undisturbed q := by
  intro h
  exact not_undisturbed_getenv (by decide)
    (h (calmDriver.acquired liberaIopModeDd) .getenv (by decide) rfl)

/-- A read of one atom of `DD` between two queries for the time stamp. -/
def readAmongQueries : List DriverOp :=
  [.iop .getTs, .read (some "DD") channelDd 32, .iop .getTs]

theorem query_contract_calm :
    ((calmDriver.acquired liberaIopModeDd).Undisturbed .getTs ↔
      IopRequest.getTs = IopRequest.getTs) ∧
    ∃ ms d', ms.map Move.op = readAmongQueries ∧
      (History Driver.step (calmDriver.acquired liberaIopModeDd) (withoutQueries ms) d' ↔
        ∀ m ∈ ms, m.op ≠ .iop .getenv) := by
  refine ⟨(query_contract _ calmDriver _ []).1 (by decide) rfl, ?_⟩
  obtain ⟨ms, hms⟩ : ∃ ms, execAll calmDrv Driver.step readAmongQueries
      (calmDriver.acquired liberaIopModeDd) () = some ms := ⟨_, rfl⟩
  obtain ⟨d', hh⟩ := History.of_execAll hms
  refine ⟨ms, d', execAll_ops hms, (query_contract _ _ .getTs _).2 hh ?_⟩
  obtain rfl := Option.some.inj hms
  simp only [List.forall_mem_cons]
  decide

end LiberaDaq
