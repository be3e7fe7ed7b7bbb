import LiberaDaq.Command.Setup

/-!
# The end of an acquisition

A command is in its end state when its running property says so or a handler threw. An ended
acquisition should be stopped: STOP was issued after the last successful ACQUIRE, the attribute
`MODE` is `0` and the connection is closed. `ending_contract` says which ends keep this: the ways
out of `acquireHandler` over the duration and over a missing dataset leave the driver running, and a
`setHandler` that fails leaves `MODE` as it was.
-/

namespace LiberaDaq

open Cspi Interaction Prog

/-! ## What the calls tell -/

/-- The call is `cspi_disconnect`, which STOP makes and no other opcode. -/
def isStop : UnitCall → Bool
  | .inl (.inl (.disconnect _)) => true
  | _ => false

/-- What a call with its answer makes of the connection: whether it is open. -/
def connectedStep (b : Bool) : UnitEvent → Bool
  | ⟨.inl (.inl (.connect _)), rc⟩ => if rc = cspiOk then true else b
  | ⟨.inl (.inl (.disconnect _)), rc⟩ => if rc = cspiOk then false else b
  | _ => b

/-- The call opens or closes the connection. -/
def managesConnection : UnitCall → Bool
  | .inl (.inl (.connect _)) | .inl (.inl (.disconnect _)) => true
  | _ => false

/-- The move ends with a successful ACQUIRE: it accepts a request. -/
def starts (m : StationMove) : Bool :=
  match m.op with
  | .set r => r.enable ≠ some 0 && m.result = .return
  | .acquire => false

/-- What a move makes of the acquisition: whether the last successful ACQUIRE was not stopped
yet. -/
def startedMove (b : Bool) (m : StationMove) : Bool :=
  if starts m then true else if m.events.any fun e => isStop e.1 then false else b

/-- After the moves an acquisition is started. -/
def startedAfter (ms : List StationMove) : Bool := ms.foldl startedMove false

/-- After the moves the connection is open; it was closed before the first of them. -/
def connectedAfter (ms : List StationMove) : Bool :=
  (ms.flatMap (·.events)).foldl connectedStep false

/-- The command is in its end state. -/
def Station.Ended (s : Station) : Prop := s.cmd.running = .ended ∨ s.threw = true

/-- After the moves `ms`, which led to `s`, the acquisition is stopped. -/
structure Stopped (ms : List StationMove) (s : Station) : Prop where
  stopped : startedAfter ms = false
  mode : s.cmd.out.mode = 0
  disconnected : connectedAfter ms = false

/-! ## Which ends are stopped -/

/-- `setHandler` found no driver. -/
def NoDriver (t : List UnitEvent) : Prop := ∃ t', t = frameEvent .getAccessor false :: t'

/-- `acquireHandler` found the duration over, or the dataset `DD` missing. -/
def Lapses (c : AcquireCmd) (t : List UnitEvent) : Prop :=
  (c.acquireDuration ≠ 0 ∧ ∃ now, frameEvent .now now ∈ t ∧ c.expired now) ∨
    frameEvent (.getRWPtr .dd) false ∈ t

/-- The connection is closed after the moves `ms`, or the library closes it in the calls `t`. -/
def Releases (ms : List StationMove) (t : List UnitEvent) : Prop :=
  connectedAfter ms = false ∨
    ∃ h, (leftEvent (cspiEvent (.disconnect h) cspiOk) : UnitEvent) ∈ t

/-- The ends that leave the acquisition stopped. A `setHandler` without a driver must find
everything stopped; one with a driver must disable the command, or find `MODE` at `0`. A turn must
end in another way than over the duration or a missing dataset. Both must release the connection. -/
def EndsWell (ms : List StationMove) (m : StationMove) : Prop :=
  match m.op with
  | .set r =>
    (NoDriver m.events → Stopped ms m.before) ∧
      (¬NoDriver m.events → (r.enable = some 0 ∨ m.before.cmd.out.mode = 0) ∧ Releases ms m.events)
  | .acquire => ¬Lapses m.before.cmd m.events ∧ Releases ms m.events

/-- The move runs a handler. -/
def Acts (m : StationMove) : Prop := m.op = .acquire → m.before.live

variable {c c' : AcquireCmd} {d d' : Driver} {t t' : List UnitEvent} {e : Exit} {r : Request}
  {ms : List StationMove} {m : StationMove} {b : Bool}

/-! ## Calls that leave the connection alone -/

/-- No call of the list opens or closes the connection. -/
def Aside (t : List UnitEvent) : Prop := ∀ e ∈ t, managesConnection e.1 = false

theorem Aside.append (h : Aside t) (h' : Aside t') : Aside (t ++ t') := by
  intro e he
  exact (List.mem_append.1 he).elim (h e) (h' e)

theorem Aside.foldl (h : Aside t) (b : Bool) : t.foldl connectedStep b = b := by
  induction t with
  | nil => rfl
  | cons e t ih =>
    obtain ⟨he, ht⟩ := List.forall_mem_cons.1 h
    have hstep : connectedStep b e = b := by
      obtain ⟨(c | c) | c, x⟩ := e
      · cases c <;> first | rfl | cases he
      · rfl
      · rfl
    rw [List.foldl_cons, hstep]
    exact ih ht

theorem Aside.any_isStop (h : Aside t) : (t.any fun e => isStop e.1) = false := by
  refine List.any_eq_false.2 fun e he hs => ?_
  have hm := h e he
  obtain ⟨(c | c) | c, x⟩ := e
  · cases c with
    | disconnect h => exact absurd hm (by simp [managesConnection])
    | _ => cases hs
  · cases hs
  · cases hs

theorem Aside.not_released (h : Aside t) (k : Handle) :
    (leftEvent (cspiEvent (.disconnect k) cspiOk) : UnitEvent) ∉ t :=
  fun hk => by cases h _ hk

theorem Silent.aside (h : Silent t) : Aside t := by
  intro e he
  rcases h e he with ⟨f, x, rfl⟩ | ⟨ep, rfl⟩
  · rfl
  · rfl

theorem aside_ts {ep : EnvParams} {x : ℤ × Timestamp} : Aside (d.tsEvents ep x) := by
  simp [Aside, managesConnection, leftEvent]

theorem aside_frame {f : FrameCall} {x : FrameAns f} (h : Aside t) :
    Aside (frameEvent f x :: t) :=
  List.forall_mem_cons.2 ⟨rfl, h⟩

theorem aside_read {buffer : Buffer} {addr : ℤ} {n : Word} {tr : List DrvEvent} {r : ReadOutcome}
    (h : d.ReadRun buffer addr n tr r) : Aside (driverEvents tr) := by
  have hdata : ∀ {tr r}, d.DataRun buffer addr n tr r → Aside (driverEvents tr) := by
    rintro tr r (⟨rc, data, hm⟩ | ⟨hm, -⟩ | ⟨rc, hm, -, -⟩ | ⟨x, hm, -⟩) <;>
      simp [Aside, managesConnection, leftEvent]
  rcases h with - | ⟨ws, w, -⟩ | ⟨ws, w, -, -, -, -, h⟩ | ⟨-, -, h⟩
  · simp [Aside]
  · simp [Aside, managesConnection, leftEvent]
  · exact List.forall_mem_cons.2 ⟨rfl, hdata h⟩
  · exact hdata h

/-- A failed ACQUIRE leaves the connection as it was. -/
theorem Driver.AcquireRun.foldl_of_ne {w : Word} {rc : ℤ} (h : d.AcquireRun w t rc d')
    (hrc : rc ≠ 0) (b : Bool) : t.foldl connectedStep b = b := by
  obtain ⟨ep, t₁, t₂, rfl, hm, ht⟩ := h
  have hmode : Aside (driverEvents (hostEvent .uninitEnv ep :: t₁)) := by
    rcases hm with - | ⟨x, -⟩ <;> simp [Aside, managesConnection, leftEvent]
  have htail : (driverEvents t₂).foldl connectedStep b = b := by
    by_cases hop : (d.acquired w).cfg.operation = .acquire
    · obtain ⟨hrun, -⟩ := (iopTail_runs hop).1 ht
      cases hrun with
      | refused => rfl
      | connect => simp [connectedStep, leftEvent, hrc]
    · exact absurd ((iopTail_runs_of_ne hop).1 ht).2.1 hrc
  rw [← List.cons_append, driverEvents, List.map_append, List.foldl_append, hmode.foldl]
  exact htail

/-- ACQUIRE does not close the connection. -/
theorem Driver.AcquireRun.not_released {w : Word} {rc : ℤ} (h : d.AcquireRun w t rc d')
    (k : Handle) : (leftEvent (cspiEvent (.disconnect k) cspiOk) : UnitEvent) ∉ t := by
  obtain ⟨ep, t₁, t₂, rfl, hm, ht⟩ := h
  have htail : cspiEvent (.disconnect k) cspiOk ∉ t₂ := by
    by_cases hop : (d.acquired w).cfg.operation = .acquire
    · obtain ⟨hrun, -⟩ := (iopTail_runs hop).1 ht
      cases hrun <;> simp
    · simp [((iopTail_runs_of_ne hop).1 ht).1]
  intro hk
  obtain ⟨e, he, hek⟩ := List.mem_map.1 hk
  have hek : e = cspiEvent (.disconnect k) cspiOk := leftEvent_injective hek
  subst hek
  rcases hm with - | ⟨x, -⟩ <;> simp [htail] at he

theorem requested_mode (c : AcquireCmd) (r : Request) :
    (c.requested r).out.mode = c.out.mode := rfl

theorem resize_mode (o : Dataset) (size : ℕ) : (o.resize a size).mode = o.mode := rfl

theorem emptied_mode (c : AcquireCmd) : c.emptied.out.mode = c.out.mode := by
  simp only [AcquireCmd.emptied, resize_mode]

theorem sought_mode (c : AcquireCmd) (r : Request) : (c.sought r).out.mode = c.out.mode := by
  unfold AcquireCmd.sought
  split <;> rfl

theorem sized_mode (c : AcquireCmd) (r : Request) (a : Attr) :
    (c.sized r a).out.mode = c.out.mode := by
  unfold AcquireCmd.sized
  split <;> rfl

theorem prepared_mode (c : AcquireCmd) (r : Request) (a : Attr) :
    (c.prepared r a).out.mode = c.out.mode := by
  rw [AcquireCmd.prepared, sought_mode, sized_mode, emptied_mode, requested_mode]

/-- STOP closes the connection, or leaves it as it was when the library refuses. -/
theorem foldl_stopEvents {ep : EnvParams} {x : ℤ} :
    (d.stopEvents ep x).foldl connectedStep b = if x = cspiOk then false else b := by
  simp [connectedStep, leftEvent]

/-! ## The ways to end -/

/-- The ends of `setHandler`. -/
theorem AcquireCmd.SetRun.ends (h : c.SetRun d r t e c' d')
    (hend : c'.running = .ended ∨ e ≠ .return) :
    (t = [frameEvent .getAccessor false] ∧ e ≠ .return ∧ c'.out.mode = c.out.mode) ∨
      ∃ ep x t₁, t = d.openEvents ep x ++ t₁ ∧ (∀ b, t₁.foldl connectedStep b = b) ∧
        (∀ k, (leftEvent (cspiEvent (.disconnect k) cspiOk) : UnitEvent) ∉ t₁) ∧
        (r.enable = some 0 ∨ e ≠ .return) ∧
        (c'.out.mode = 0 ↔ r.enable = some 0 ∨ c.out.mode = 0) := by
  cases h with
  | noDriver => exact .inl ⟨rfl, by simp, rfl⟩
  | disabled ep x hdis =>
    exact .inr ⟨ep, x, [], by simp, by simp, by simp, .inl hdis, by simp [hdis]⟩
  | modeless ep x hen hmode =>
    exact .inr ⟨ep, x, [], by simp, by simp, by simp, .inr (by simp), by
      rw [or_iff_right hen]
      rfl⟩
  | refused ep x w hen hmode hsil hout =>
    exact .inr ⟨ep, x, _, rfl, hsil.aside.foldl, hsil.aside.not_released, .inr (by simp), by
      rw [or_iff_right hen, hout]⟩
  | unsupported ep x w hen hmode hattr hsil =>
    refine .inr ⟨ep, x, _, rfl, hsil.aside.foldl, hsil.aside.not_released, .inr (by simp), ?_⟩
    rw [or_iff_right hen, AcquireCmd.end_out, AcquireCmd.raise_mode, emptied_mode, requested_mode]
  | unstarted ep x w a rc hen hmode hattr hsil hacq hrc =>
    refine .inr ⟨ep, x, _, rfl, fun b => ?_, fun k hk => ?_, .inr (by simp), ?_⟩
    · rw [List.foldl_append, hsil.aside.foldl]
      exact hacq.foldl_of_ne hrc b
    · rcases List.mem_append.1 hk with hk | hk
      · exact hsil.aside.not_released k hk
      · exact hacq.not_released k hk
    · rw [or_iff_right hen, AcquireCmd.end_out, prepared_mode]
  | started =>
    rcases hend with hend | hend
    · cases hend
    · exact absurd rfl hend

/-- The end of a turn, when the command does not go on. -/
theorem AcquireCmd.FinishRun.ends (h : c.FinishRun d t e c' d') (hrun : c.running = .normal)
    (hend : c'.running = .ended ∨ e ≠ .return) :
    c'.out.mode = 0 ∧ ∃ ep x, t = d.stopEvents ep x := by
  cases h with
  | ended ep x => exact ⟨rfl, ep, x, rfl⟩
  | failed ep x => exact ⟨rfl, ep, x, rfl⟩
  | goesOn =>
    rcases hend with hend | hend
    · have hcount : c.countDown.running = c.running := by
        unfold AcquireCmd.countDown
        split <;> rfl
      rw [hcount, hrun] at hend
      cases hend
    · exact absurd rfl hend

theorem frame_not_driver {f : FrameCall} {x : FrameAns f} {tr : List DrvEvent} :
    frameEvent f x ∉ driverEvents tr := by
  intro h
  obtain ⟨e, -, he⟩ := List.mem_map.1 h
  cases he

/-- The end of a turn after the test of the duration. -/
theorem AcquireCmd.IterateRun.ends (h : c.IterateRun d t e c' d') (hrun : c.running = .normal)
    (hend : c'.running = .ended ∨ e ≠ .return) :
    (frameEvent (.getRWPtr .dd) false ∈ t ∧ Aside t) ∨
      (frameEvent (.getRWPtr .dd) false ∉ t ∧ (∀ now, frameEvent .now now ∉ t) ∧
        c'.out.mode = 0 ∧ ∃ t₁ ep x, t = t₁ ++ d.stopEvents ep x ∧ Aside t₁) := by
  cases h with
  | missing ep x =>
    exact .inl ⟨by simp, aside_ts.append (aside_frame (by simp [Aside]))⟩
  | unread ep x hattr hfin =>
    obtain ⟨hmode, ep', x', rfl⟩ := hfin.ends (by simpa using hrun) hend
    refine .inr ⟨?_, fun now => ?_, hmode, _, ep', x', rfl, aside_ts⟩
    · rw [← List.map_append]
      exact frame_not_driver
    · rw [← List.map_append]
      exact frame_not_driver
  | read ep x a ptr hattr hptr hn hread hfin =>
    rename_i tr ro t'
    have htook : (((c.stamped x).took a ptr ro)).running = .normal := by
      unfold AcquireCmd.took
      split <;> simpa using hrun
    obtain ⟨hmode, ep', x', rfl⟩ := hfin.ends htook hend
    have hframe : ∀ {f : FrameCall} {y : FrameAns f}, frameEvent f y ∈ d.tsEvents ep x ++
        frameEvent (.getRWPtr a) ptr :: (driverEvents tr ++ d.stopEvents ep' x') →
          frameEvent f y = frameEvent (.getRWPtr a) ptr := by
      intro f y hf
      rcases List.mem_append.1 hf with hf | hf
      · exact absurd hf frame_not_driver
      · rcases List.mem_cons.1 hf with hf | hf
        · exact hf
        · rw [← List.map_append] at hf
          exact absurd hf frame_not_driver
    refine .inr ⟨fun hf => ?_, fun now hf => ?_, hmode, d.tsEvents ep x ++
      frameEvent (.getRWPtr a) ptr :: driverEvents tr, ep', x', by simp, ?_⟩
    · cases hframe hf
      simp [Attr.readable] at hptr
    · cases hframe hf
    · exact aside_ts.append (aside_frame (aside_read hread))

/-- The ends of `acquireHandler`. -/
theorem AcquireCmd.TurnRun.ends (h : c.TurnRun d t e c' d') (hrun : c.running = .normal)
    (hend : c'.running = .ended ∨ e ≠ .return) :
    (Lapses c t ∧ Aside t) ∨
      (¬Lapses c t ∧ c'.out.mode = 0 ∧ ∃ t₁ ep x, t = t₁ ++ d.stopEvents ep x ∧ Aside t₁) := by
  cases h with
  | expired now hdur hexp =>
    exact .inl ⟨.inl ⟨hdur, now, by simp, hexp⟩, aside_frame (by simp [Aside])⟩
  | timed now hdur hexp hit =>
    rcases hit.ends hrun hend with ⟨hmiss, haside⟩ | ⟨hfound, hnow, hmode, t₁, ep, x, rfl, haside⟩
    · exact .inl ⟨.inr (List.mem_cons_of_mem _ hmiss), aside_frame haside⟩
    · refine .inr ⟨?_, hmode, frameEvent .now now :: t₁, ep, x, by simp, aside_frame haside⟩
      rintro (⟨-, now', hmem, hexp'⟩ | hmiss)
      · rcases List.mem_cons.1 hmem with heq | hmem
        · cases heq
          exact hexp hexp'
        · exact hnow now' hmem
      · rcases List.mem_cons.1 hmiss with heq | hmiss
        · cases heq
        · exact hfound hmiss
  | untimed hdur hit =>
    rcases hit.ends hrun hend with ⟨hmiss, haside⟩ | ⟨hfound, hnow, hmode, t₁, ep, x, rfl, haside⟩
    · exact .inl ⟨.inr hmiss, haside⟩
    · refine .inr ⟨?_, hmode, t₁, ep, x, rfl, haside⟩
      rintro (⟨hne, -⟩ | hmiss)
      · exact hne hdur
      · exact hfound hmiss

theorem AcquireCmd.FinishRun.goes_on (h : c.FinishRun d t e c' d') (hrun : c'.running = .normal) :
    t = [] := by
  cases h with
  | goesOn => rfl
  | _ => cases hrun

theorem AcquireCmd.IterateRun.aside (h : c.IterateRun d t e c' d') (hrun : c'.running = .normal) :
    Aside t := by
  cases h with
  | missing => cases hrun
  | unread ep x hattr hfin =>
    obtain rfl := hfin.goes_on hrun
    exact aside_ts.append (by simp [Aside])
  | read ep x a ptr hattr hptr hn hread hfin =>
    obtain rfl := hfin.goes_on hrun
    exact aside_ts.append (aside_frame ((aside_read hread).append (by simp [Aside])))

/-- A turn after which the command goes on leaves the connection alone. -/
theorem AcquireCmd.TurnRun.aside (h : c.TurnRun d t e c' d') (hrun : c'.running = .normal) :
    Aside t := by
  cases h with
  | expired => cases hrun
  | timed now hdur hexp hit => exact aside_frame (hit.aside hrun)
  | untimed hdur hit => exact hit.aside hrun

/-! ## Over whole histories -/

theorem startedAfter_append : startedAfter (ms ++ [m]) = startedMove (startedAfter ms) m := by
  rw [startedAfter, List.foldl_append]
  rfl

theorem connectedAfter_append :
    connectedAfter (ms ++ [m]) = m.events.foldl connectedStep (connectedAfter ms) := by
  rw [connectedAfter, List.flatMap_append, List.foldl_append]
  simp [connectedAfter]

theorem starts_of_set (hop : m.op = .set r) :
    starts m ↔ r.enable ≠ some 0 ∧ m.result = .return := by
  simp [starts, hop]

theorem not_starts_of_acquire (hop : m.op = .acquire) : starts m = false := by
  simp [starts, hop]

/-- The calls around one STOP leave the connection closed when they release it. -/
theorem releases_iff {x : ℤ} {t₁ t₂ : List UnitEvent} {ep : EnvParams} (h₁ : Aside t₁)
    (h₂ : ∀ b, t₂.foldl connectedStep b = b)
    (h₃ : ∀ k, (leftEvent (cspiEvent (.disconnect k) cspiOk) : UnitEvent) ∉ t₂) :
    (t₁ ++ (d.stopEvents ep x ++ t₂)).foldl connectedStep (connectedAfter ms) = false ↔
      Releases ms (t₁ ++ (d.stopEvents ep x ++ t₂)) := by
  have hmem : (∃ k, (leftEvent (cspiEvent (.disconnect k) cspiOk) : UnitEvent) ∈
      t₁ ++ (d.stopEvents ep x ++ t₂)) ↔ x = cspiOk := by
    refine ⟨fun ⟨k, hk⟩ => ?_, fun hx => ⟨d.conHandle, by simp [hx]⟩⟩
    rcases List.mem_append.1 hk with hk | hk
    · exact absurd hk (h₁.not_released k)
    · rcases List.mem_append.1 hk with hk | hk
      · rcases List.mem_cons.1 hk with hk | hk
        · cases leftEvent_injective hk
        · cases leftEvent_injective (List.mem_singleton.1 hk)
          rfl
      · exact absurd hk (h₃ k)
  rw [Releases, hmem, List.foldl_append, h₁.foldl, List.foldl_append, foldl_stopEvents, h₂]
  split <;> simp_all

/-- The calls of a STOP count as one. -/
theorem any_isStop {x : ℤ} {t₁ t₂ : List UnitEvent} {ep : EnvParams} :
    ((t₁ ++ (d.stopEvents ep x ++ t₂)).any fun e => isStop e.1) = true := by
  simp [isStop, leftEvent]

/-- A live command has an acquisition that is started. -/
theorem started_of_live (hm : m.Valid Station.step)
    (hI : m.before.live → startedAfter ms = true) (hl : m.after.live) :
    startedAfter (ms ++ [m]) = true := by
  obtain ⟨hrun, hthrew⟩ := hl
  rw [startedAfter_append, startedMove]
  cases hop : m.op with
  | set r =>
    obtain ⟨hset, ht⟩ := move_set hm hop
    have hres : m.result = .return := by
      by_contra hne
      rw [ht.2 hne] at hthrew
      cases hthrew
    have hen : r.enable ≠ some 0 := fun hen => by
      rw [hres] at hset
      generalize m.after.cmd = c' at hset hrun
      generalize m.after.driver = d' at hset
      generalize m.events = t at hset
      cases hset with
      | disabled => cases hrun
      | started ep x w a now hen' => exact hen' hen
    rw [if_pos ((starts_of_set hop).2 ⟨hen, hres⟩)]
  | acquire =>
    rw [if_neg (by simp [not_starts_of_acquire hop])]
    by_cases hl : m.before.live
    · rw [((move_turn hm hop hl).1.aside hrun).any_isStop]
      exact hI hl
    · obtain ⟨hev, -, hafter⟩ := move_idle hm hop hl
      rw [hafter] at hrun hthrew
      exact absurd ⟨hrun, hthrew⟩ hl

/-- How a move with a handler ends, in terms of its exit. -/
theorem ended_iff {s : Station} {e : Exit} (ht : s.threw = true ↔ e ≠ .return) :
    s.Ended ↔ s.cmd.running = .ended ∨ e ≠ .return := by
  rw [Station.Ended, ht]

theorem Stopped.congr {s : Station} {ms' : List StationMove} {s' : Station}
    (h₁ : startedAfter ms' = startedAfter ms) (h₂ : s'.cmd.out.mode = s.cmd.out.mode)
    (h₃ : connectedAfter ms' = connectedAfter ms) : Stopped ms' s' ↔ Stopped ms s := by
  refine ⟨fun h => ⟨?_, ?_, ?_⟩, fun h => ⟨?_, ?_, ?_⟩⟩
  · rw [← h₁, h.stopped]
  · rw [← h₂, h.mode]
  · rw [← h₃, h.disconnected]
  · rw [h₁, h.stopped]
  · rw [h₂, h.mode]
  · rw [h₃, h.disconnected]

/-- **When `setHandler` ends well.** -/
theorem set_stopped_iff (hm : m.Valid Station.step) (hop : m.op = .set r) (hend : m.after.Ended) :
    Stopped (ms ++ [m]) m.after ↔ EndsWell ms m := by
  obtain ⟨hset, ht⟩ := move_set hm hop
  rw [EndsWell, hop]
  dsimp only
  rcases hset.ends ((ended_iff ht).1 hend) with ⟨hev, hres, hmode⟩ |
    ⟨ep, x, t₁, hev, hfold, hrel, hres, hmode⟩
  · have hnodrv : NoDriver m.events := ⟨[], hev⟩
    have hstart : starts m = false := by
      rw [← Bool.not_eq_true, starts_of_set hop]
      exact fun h => hres h.2
    rw [imp_iff_right hnodrv, and_iff_left fun hn => absurd hnodrv hn]
    refine Stopped.congr ?_ hmode ?_
    · rw [startedAfter_append, startedMove, hstart, hev]
      rfl
    · rw [connectedAfter_append, hev]
      rfl
  · have hdrv : ¬NoDriver m.events := by
      rintro ⟨t', ht'⟩
      rw [hev] at ht'
      cases ht'
    have hstart : starts m = false := by
      rw [← Bool.not_eq_true, starts_of_set hop]
      exact fun h => hres.elim h.1 fun hne => hne h.2
    have hev' : m.events = [frameEvent .getAccessor true] ++
        (m.before.driver.stopEvents ep x ++ t₁) := hev
    have hclosed : connectedAfter (ms ++ [m]) = false ↔ Releases ms m.events := by
      rw [connectedAfter_append, hev']
      exact releases_iff (aside_frame (by simp [Aside])) hfold hrel
    rw [imp_iff_right hdrv, and_iff_right fun h => absurd h hdrv, ← hmode, ← hclosed]
    refine ⟨fun h => ⟨h.mode, h.disconnected⟩, fun h => ⟨?_, h.1, h.2⟩⟩
    rw [startedAfter_append, startedMove, hstart, hev', any_isStop]
    rfl

/-- **When `acquireHandler` ends well.** -/
theorem acquire_stopped_iff (hm : m.Valid Station.step) (hop : m.op = .acquire)
    (hl : m.before.live) (hI : startedAfter ms = true) (hend : m.after.Ended) :
    Stopped (ms ++ [m]) m.after ↔ EndsWell ms m := by
  obtain ⟨hturn, ht⟩ := move_turn hm hop hl
  have hstart := not_starts_of_acquire hop
  rw [EndsWell, hop]
  dsimp only
  rcases hturn.ends hl.1 ((ended_iff ht).1 hend) with ⟨hlapse, haside⟩ |
    ⟨hlapse, hmode, t₁, ep, x, hev, haside⟩
  · refine iff_of_false (fun h => ?_) fun h => h.1 hlapse
    have hs := h.stopped
    rw [startedAfter_append, startedMove, hstart, haside.any_isStop, hI] at hs
    cases hs
  · have hev' : m.events = t₁ ++ (m.before.driver.stopEvents ep x ++ []) := by
      rw [hev, List.append_nil]
    have hclosed : connectedAfter (ms ++ [m]) = false ↔ Releases ms m.events := by
      rw [connectedAfter_append, hev']
      exact releases_iff haside (by simp) (by simp)
    rw [and_iff_right hlapse, ← hclosed]
    refine ⟨fun h => h.disconnected, fun h => ⟨?_, hmode, h⟩⟩
    rw [startedAfter_append, startedMove, hstart, hev', any_isStop]
    rfl

/-- Every move that ends the command ends it well. -/
def AllEndWell (ms : List StationMove) : Prop :=
  ∀ ms₁ m ms₂, ms = ms₁ ++ m :: ms₂ → Acts m → m.after.Ended → EndsWell ms₁ m

theorem AllEndWell.of_append {ms₁ ms₂ : List StationMove} (h : AllEndWell (ms₁ ++ ms₂)) :
    AllEndWell ms₁ := by
  rintro ms₃ m ms₄ rfl
  exact h ms₃ m (ms₄ ++ ms₂) (by simp)

/-- When a move that runs a handler ends the command, the acquisition is stopped exactly when the
move ends it well. -/
theorem stopped_iff_endsWell (hm : m.Valid Station.step)
    (hI : m.before.live → startedAfter ms = true) (hact : Acts m) (hend : m.after.Ended) :
    Stopped (ms ++ [m]) m.after ↔ EndsWell ms m := by
  cases hop : m.op with
  | set r => exact set_stopped_iff hm hop hend
  | acquire => exact acquire_stopped_iff hm hop (hact hop) (hI (hact hop)) hend

/-- A command that does not act stays as it is. -/
theorem stopped_idle (hm : m.Valid Station.step) (hop : m.op = .acquire) (hl : ¬m.before.live) :
    Stopped (ms ++ [m]) m.after ↔ Stopped ms m.before := by
  obtain ⟨hev, -, hafter⟩ := move_idle hm hop hl
  refine Stopped.congr ?_ (by rw [hafter]) ?_
  · rw [startedAfter_append, startedMove, not_starts_of_acquire hop, hev]
    rfl
  · rw [connectedAfter_append, hev]
    rfl

/-- **An ended acquisition is stopped.** In every history of a command that was not started yet, a
move that ends it leaves the acquisition stopped exactly when the move ends it well; and where all
moves that end it do so well, the acquisition is stopped in every end state that is reached. -/
theorem ending_contract {s s' : Station} (h : History Station.step s ms s')
    (hexec : s.cmd.running = .exec) (hthrew : s.threw = false) :
    (∀ ms₁ m ms₂, ms = ms₁ ++ m :: ms₂ → Acts m → m.after.Ended →
      (Stopped (ms₁ ++ [m]) m.after ↔ EndsWell ms₁ m)) ∧
    (AllEndWell ms → ∀ ms₁ m ms₂, ms = ms₁ ++ m :: ms₂ → m.after.Ended →
      Stopped (ms₁ ++ [m]) m.after) := by
  have hrule := History.rule_prefix
    (I := fun ms s => (s.live → startedAfter ms = true) ∧
      (AllEndWell ms → s.Ended → Stopped ms s))
    (P := fun ms m => (Acts m → m.after.Ended → (Stopped (ms ++ [m]) m.after ↔ EndsWell ms m)) ∧
      (AllEndWell (ms ++ [m]) → m.after.Ended → Stopped (ms ++ [m]) m.after)) ?_ h ?_
  · refine ⟨fun ms₁ m ms₂ he => (hrule.1 ms₁ m ms₂ he).1, ?_⟩
    rintro hall ms₁ m ms₂ rfl
    have hall : AllEndWell ((ms₁ ++ [m]) ++ ms₂) := by simpa using hall
    exact (hrule.1 ms₁ m ms₂ rfl).2 hall.of_append
  · rintro ms m hm ⟨hlive, hstop⟩
    have hkey : AllEndWell (ms ++ [m]) → m.after.Ended → Stopped (ms ++ [m]) m.after := by
      intro hall hend
      by_cases hact : Acts m
      · exact (stopped_iff_endsWell hm hlive hact hend).2 (hall ms m [] rfl hact hend)
      · obtain ⟨hop, hl⟩ := Classical.not_imp.1 hact
        rw [stopped_idle hm hop hl]
        rw [(move_idle hm hop hl).2.2] at hend
        exact hstop hall.of_append hend
    exact ⟨⟨fun hact hend => stopped_iff_endsWell hm hlive hact hend, hkey⟩,
      fun hl => started_of_live hm hlive hl, hkey⟩
  · refine ⟨fun hl => ?_, fun _ hend => ?_⟩
    · have hrun := hl.1
      rw [hexec] at hrun
      cases hrun
    · rcases hend with hend | hend
      · rw [hexec] at hend
        cases hend
      · rw [hthrew] at hend
        cases hend

/-- The calm environment with a clock that moves on by two seconds at every reading. -/
def ticking : Handler UnitCall UnitAns ℕ
  | .inr .now, n => some (BitVec.ofNat 64 (2000 * n), n + 1)
  | c, n => (calm c ()).map fun x => (x.1, n)

/-- An acquisition of `DD` for one second. -/
def shortAcquisition : List StationOp :=
  [.set { mode := some 1, samples := some 1, duration := some 1 }, .acquire]

theorem shortAcquisition_moves : ∃ m₁ m₂, execAll ticking Station.step shortAcquisition
    calmStation 0 = some [m₁, m₂] ∧ m₂.after.cmd.running = .ended ∧
      startedAfter [m₁, m₂] = true ∧ connectedAfter [m₁, m₂] = true :=
  ⟨_, _, rfl, rfl, rfl, rfl⟩

/-- An acquisition that ends over its duration is never stopped. -/
theorem expiry_not_stopped : ¬∀ (s s' : Station) (ms : List StationMove),
    History Station.step s ms s' → s.cmd.running = .exec → s.threw = false →
      ∀ ms₁ m ms₂, ms = ms₁ ++ m :: ms₂ → m.after.Ended → Stopped (ms₁ ++ [m]) m.after := by
  intro h
  obtain ⟨m₁, m₂, hms, hend, hstart, -⟩ := shortAcquisition_moves
  obtain ⟨s', hh⟩ := History.of_execAll hms
  have hstop := (h _ _ _ hh rfl rfl [m₁] m₂ [] rfl (.inl hend)).stopped
  rw [List.singleton_append, hstart] at hstop
  cases hstop

/-- The contract for that acquisition. -/
theorem ending_contract_short : ∃ ms s', History Station.step calmStation ms s' ∧
    ms.map Move.op = shortAcquisition ∧
    (∀ ms₁ m ms₂, ms = ms₁ ++ m :: ms₂ → Acts m → m.after.Ended →
      (Stopped (ms₁ ++ [m]) m.after ↔ EndsWell ms₁ m)) ∧
    (AllEndWell ms → ∀ ms₁ m ms₂, ms = ms₁ ++ m :: ms₂ → m.after.Ended →
      Stopped (ms₁ ++ [m]) m.after) := by
  obtain ⟨m₁, m₂, hms, -⟩ := shortAcquisition_moves
  obtain ⟨s', hh⟩ := History.of_execAll hms
  exact ⟨_, s', hh, execAll_ops hms, ending_contract hh rfl rfl⟩

end LiberaDaq
