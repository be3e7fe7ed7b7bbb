import LiberaDaq.Driver.IopRuns

/-!
# Live handles

`initIO` allocates an environment and a connection, `deinitIO` frees them, and everything in between
passes them to the library. A handle is live in a list of calls and answers when the library gave it
out and did not free it since. `init_contract` says when an `initIO` that returns `0` leaves live
handles: it also returns `0` when it did nothing, because the operation is not `deinit`.
-/

namespace LiberaDaq

open Cspi Interaction

/-! ## The handles that a method passes on -/

/-- The handles that a call passes to the library, with their types; none for the calls that
allocate or free. -/
def usedHandles : DrvCall → List (HandleType × Handle)
  | .inl (.setenvparam h _ _) | .inl (.getenvparam h _ _) | .inl (.settime h _ _) => [(.env, h)]
  | .inl (.setconparam h _ _) | .inl (.connect h) | .inl (.disconnect h) | .inl (.seek h _ _)
  | .inl (.read h _ _) | .inl (.get h _) | .inl (.gettimestamp h) => [(.con, h)]
  | _ => []

/-- The call allocates or frees a handle. -/
def managesHandles : DrvCall → Bool
  | .inl (.allochandle _ _) | .inl (.freehandle _ _) => true
  | _ => false

/-- The handles of the driver, with their types. -/
def Driver.handles (d : Driver) : List (HandleType × Handle) :=
  [(.env, d.envHandle), (.con, d.conHandle)]

/-- The call uses the handles of the driver and leaves them as they are. -/
def Driver.Uses (d : Driver) (c : DrvCall) : Prop :=
  managesHandles c = false ∧ ∀ h ∈ usedHandles c, h ∈ d.handles

/-- The drivers have the same handles. -/
def Driver.SameHandles (d d' : Driver) : Prop :=
  d'.envHandle = d.envHandle ∧ d'.conHandle = d.conHandle

variable {d d' : Driver} {c : DrvCall}

theorem Driver.SameHandles.uses (h : d.SameHandles d') : d'.Uses c ↔ d.Uses c := by
  rw [Driver.Uses, Driver.Uses, Driver.handles, Driver.handles, h.1, h.2]

@[simp] theorem uses_host (c : HostCall) : d.Uses (.inr c) :=
  ⟨rfl, fun _ h => absurd h List.not_mem_nil⟩

/-- A call that passes on the environment handle uses it. -/
theorem Driver.uses_of_env (hc : usedHandles c = [(.env, d.envHandle)])
    (hm : managesHandles c = false) : d.Uses c := by
  refine ⟨hm, fun h hh => ?_⟩
  rw [hc, List.mem_singleton] at hh
  exact hh ▸ List.mem_cons_self

/-- A call that passes on the connection handle uses it. -/
theorem Driver.uses_of_con (hc : usedHandles c = [(.con, d.conHandle)])
    (hm : managesHandles c = false) : d.Uses c := by
  refine ⟨hm, fun h hh => ?_⟩
  rw [hc, List.mem_singleton] at hh
  exact hh ▸ List.mem_cons_of_mem _ List.mem_cons_self

@[simp] theorem uses_setenvparam (p : EnvParams) (f : Bitmask) :
    d.Uses (.inl (.setenvparam d.envHandle p f)) :=
  Driver.uses_of_env rfl rfl

@[simp] theorem uses_getenvparam (p : EnvParams) (f : Bitmask) :
    d.Uses (.inl (.getenvparam d.envHandle p f)) :=
  Driver.uses_of_env rfl rfl

@[simp] theorem uses_settime (ts : SetTimestamp) (f : Bitmask) :
    d.Uses (.inl (.settime d.envHandle ts f)) :=
  Driver.uses_of_env rfl rfl

@[simp] theorem uses_setconparam (p : ConParams) (f : Bitmask) :
    d.Uses (.inl (.setconparam d.conHandle p f)) :=
  Driver.uses_of_con rfl rfl

@[simp] theorem uses_connect : d.Uses (.inl (.connect d.conHandle)) :=
  Driver.uses_of_con rfl rfl

@[simp] theorem uses_disconnect : d.Uses (.inl (.disconnect d.conHandle)) :=
  Driver.uses_of_con rfl rfl

@[simp] theorem uses_seek (o : BitVec 64) (s : Seek) : d.Uses (.inl (.seek d.conHandle o s)) :=
  Driver.uses_of_con rfl rfl

@[simp] theorem uses_read (b : Buffer) (n : Word) : d.Uses (.inl (.read d.conHandle b n)) :=
  Driver.uses_of_con rfl rfl

@[simp] theorem uses_get (b : Buffer) : d.Uses (.inl (.get d.conHandle b)) :=
  Driver.uses_of_con rfl rfl

@[simp] theorem uses_gettimestamp : d.Uses (.inl (.gettimestamp d.conHandle)) :=
  Driver.uses_of_con rfl rfl

theorem assignTime_confined (s : List Char) (cfg : LiberaConfig) :
    (assignTime s cfg).Confined d.Uses fun _ => True := by
  unfold assignTime assignSt
  split
  · trivial
  · split
    · split
      · trivial
      · simp only [Prog.perform_bind, Prog.confined_call, uses_host, true_and]
        intro x
        cases x <;> simp
    · trivial

theorem iopTail_confined (h : d.SameHandles d') :
    d'.iopTail.Confined d.Uses fun x => d.SameHandles x.2 := by
  have huse : d'.Uses = d.Uses := funext fun _ => propext h.uses
  unfold Driver.iopTail
  rw [← huse]
  split
  · have hp : d.SameHandles d'.setParams := h
    simp only [Prog.perform_bind, Prog.confined_call, Prog.confined_ite, Prog.confined_pure, hp,
      ite_self, implies_true, and_true]
    refine ⟨uses_setconparam _ _, fun rc => ?_⟩
    split
    · trivial
    · exact uses_connect
  · exact h

theorem finish_confined (h : d.SameHandles d') (out : IopOut) :
    (d'.finish out).Confined d.Uses fun x => d.SameHandles x.2.2 :=
  Prog.confined_bind.2 (Prog.confined_mono (iopTail_confined h) fun _ hx => hx)

theorem settimeTail_confined (ep : EnvParams) :
    (d.settimeTail ep).Confined d.Uses fun _ => True := by
  simp [Driver.settimeTail]

theorem settime_confined (ep : EnvParams) (s : List Char) :
    (d.settime ep s).Confined d.Uses fun x => d.SameHandles x.2 := by
  refine Prog.confined_bind.2 (Prog.confined_mono (assignTime_confined s _) ?_)
  rintro ⟨o, cfg⟩ -
  have hsame : d.SameHandles { d.setOperation .settime with cfg := cfg } := ⟨rfl, rfl⟩
  rw [Prog.confined_ite]
  split
  · exact hsame
  · have huse : Driver.Uses { d.setOperation .settime with cfg := cfg } = d.Uses :=
      funext fun _ => propext hsame.uses
    rw [← huse]
    exact Prog.confined_bind.2 (Prog.confined_mono (settimeTail_confined ep) fun _ _ => hsame)

/-- `iop` uses the handles of the driver and leaves them as they are. -/
theorem iop_confined (d : Driver) (q : IopRequest) :
    (d.iop q).Confined d.Uses fun x => d.SameHandles x.2.2 := by
  have hfin : ∀ (d' : Driver) (out : IopOut), d.SameHandles d' → (d'.finish out).Confined d.Uses
      fun x => d.SameHandles x.2.2 := fun d' out h => finish_confined h out
  have hop : ∀ op, d.SameHandles (d.setOperation op) := fun _ => ⟨rfl, rfl⟩
  unfold Driver.iop
  simp only [Prog.perform_bind, Prog.confined_call, uses_host, true_and]
  intro ep
  cases q with
  | acquire w =>
    have hw := hfin (d.acquired w) .none ⟨rfl, rfl⟩
    refine Prog.confined_bind.2 ?_
    simp only [Driver.acquire, Prog.perform_bind, Prog.confined_ite, Prog.confined_pure,
      Prog.confined_call, uses_setenvparam, true_and]
    split
    · exact hw
    · exact fun _ => hw
  | setenv selector value => simp [Driver.setenv, hfin _ _ (hop _), hop]
  | getenv => simp [Driver.getenv, hfin _ _ (hop _), hop]
  | settime s => exact Prog.confined_bind.2 (Prog.confined_mono (settime_confined ep s) fun _ h =>
      h)
  | setOffset n => exact hfin (d.setOffset n) .none ⟨rfl, rfl⟩
  | setSamples n => exact hfin (d.setSamples n) .none ⟨rfl, rfl⟩
  | stop => simp [hfin _ _ (hop _)]
  | getTs => simp [Driver.SameHandles]
  | other => exact hfin d .none ⟨rfl, rfl⟩

theorem readData_confined (d : Driver) (buffer : Buffer) (addr : ℤ) (n : Word) :
    (d.readData buffer addr n).Confined d.Uses fun _ => True := by
  unfold Driver.readData
  split
  · simp
  · split <;> simp

theorem waitTrigger_confined : waitTrigger.Confined d.Uses fun _ => True := by
  simp only [waitTrigger, Prog.perform_bind, Prog.confined_call, uses_host, true_and]
  intro ws
  split
  · simp
  · simp

/-- `read` uses the handles of the driver. -/
theorem read_confined (d : Driver) (buffer : Buffer) (addr : ℤ) (n : Word) :
    (d.read buffer addr n).Confined d.Uses fun _ => True := by
  unfold Driver.read
  simp only [Prog.confined_ite, Prog.confined_bind, Prog.confined_pure]
  have hdata := readData_confined d buffer addr n
  simp [hdata, Prog.confined_mono waitTrigger_confined fun _ h => h]

/-! ## initIO and deinitIO -/

/-- The driver once `initIO` began. -/
def Driver.initial (d : Driver) : Driver :=
  { d with
    cfg := { d.cfg with operation := .init, atomCount := 1, datasize := 0 }
    ep := d.ep.set .trigMode trigmodeGet }

/-- The runs of `initIO`. -/
inductive Driver.InitRun (d : Driver) : List DrvEvent → ℤ → Driver → Prop
  | skipped : d.cfg.operation ≠ .deinit → InitRun d [] 0 d
  | noEnv (rc₀ : ℤ) (x : ℤ × Handle) : d.cfg.operation = .deinit → x.1 ≠ cspiOk →
      InitRun d [cspiEvent (.setlibparam d.superuser) rc₀, cspiEvent (.allochandle .env .null) x]
        x.1 { d.initial with envHandle := x.2 }
  | unset (rc₀ : ℤ) (h : Handle) (y : ℤ × EnvParams) : d.cfg.operation = .deinit → y.1 ≠ cspiOk →
      InitRun d [cspiEvent (.setlibparam d.superuser) rc₀,
          cspiEvent (.allochandle .env .null) (cspiOk, h),
          cspiEvent (.setenvparam h d.initial.ep envTrigmode) y]
        y.1 { d.initial with envHandle := h, ep := y.2 }
  | done (rc₀ : ℤ) (h : Handle) (ep : EnvParams) (z : ℤ × Handle) : d.cfg.operation = .deinit →
      InitRun d [cspiEvent (.setlibparam d.superuser) rc₀,
          cspiEvent (.allochandle .env .null) (cspiOk, h),
          cspiEvent (.setenvparam h d.initial.ep envTrigmode) (cspiOk, ep),
          cspiEvent (.allochandle .con h) z]
        z.1 { d.initial with envHandle := h, ep := ep, conHandle := z.2 }

variable {tr : List DrvEvent} {rc : ℤ} {h h' : Handle} {t : HandleType}

theorem initIO_runs (hr : d.initIO.Runs tr (rc, d')) : d.InitRun tr rc d' := by
  unfold Driver.initIO at hr
  split at hr
  · next hop =>
    obtain ⟨rfl, he⟩ := hr
    obtain ⟨rfl, rfl⟩ := Prod.mk.inj he
    exact .skipped hop
  · next hop =>
    have hop : d.cfg.operation = .deinit := not_not.1 hop
    simp only [Prog.perform_bind, Prog.runs_call, Prog.runs_ite, Prog.runs_pure,
      Prod.mk.injEq] at hr
    obtain ⟨rc₀, _, rfl, x, t₁, rfl, hr⟩ := hr
    split at hr
    · next hx =>
      obtain ⟨rfl, rfl, rfl⟩ := hr
      exact .noEnv rc₀ x hop hx
    · next hx =>
      obtain ⟨rc₁, h⟩ := x
      obtain rfl : rc₁ = cspiOk := not_not.1 hx
      obtain ⟨y, t₂, rfl, hr⟩ := hr
      split at hr
      · next hy =>
        obtain ⟨rfl, rfl, rfl⟩ := hr
        exact .unset rc₀ h y hop hy
      · next hy =>
        obtain ⟨rc₂, ep⟩ := y
        obtain rfl : rc₂ = cspiOk := not_not.1 hy
        obtain ⟨z, t₃, rfl, hr⟩ := hr
        split at hr
        · obtain ⟨rfl, rfl, rfl⟩ := hr
          exact .done rc₀ h ep z hop
        · next hz =>
          obtain ⟨rc₃, h'⟩ := z
          obtain rfl : rc₃ = cspiOk := not_not.1 hz
          obtain ⟨rfl, rfl, rfl⟩ := hr
          exact .done rc₀ h ep (cspiOk, h') hop

/-- The runs of the part of `deinitIO` for one handle. -/
inductive FreeRun (t : HandleType) (h : Handle) : List DrvEvent → ℤ → Handle → Prop
  | null : h = .null → FreeRun t h [] cspiOk h
  | kept (rc : ℤ) : h ≠ .null → rc ≠ cspiOk → FreeRun t h [cspiEvent (.freehandle t h) rc] rc h
  | freed : h ≠ .null → FreeRun t h [cspiEvent (.freehandle t h) cspiOk] cspiOk .null

theorem freeHandle_runs (hr : (freeHandle t h).Runs tr (rc, h')) : FreeRun t h tr rc h' := by
  unfold freeHandle at hr
  split at hr
  · next hne =>
    simp only [Prog.perform_bind, Prog.runs_call, Prog.runs_ite, Prog.runs_pure,
      Prod.mk.injEq] at hr
    obtain ⟨rc₁, t₁, rfl, hr⟩ := hr
    split at hr
    · next hrc =>
      obtain ⟨rfl, rfl, rfl⟩ := hr
      exact .kept _ hne hrc
    · next hrc =>
      obtain rfl : rc₁ = cspiOk := not_not.1 hrc
      obtain ⟨rfl, rfl, rfl⟩ := hr
      exact .freed hne
  · next heq =>
    obtain ⟨rfl, he⟩ := hr
    obtain ⟨rfl, rfl⟩ := Prod.mk.inj he
    exact .null (not_not.1 heq)

/-- The runs of `deinitIO`. -/
inductive Driver.DeinitRun (d : Driver) : List DrvEvent → ℤ → Driver → Prop
  | envKept {t : List DrvEvent} {rc : ℤ} {h : Handle} : FreeRun .env d.envHandle t rc h →
      rc ≠ cspiOk → DeinitRun d t rc { d.setOperation .deinit with envHandle := h }
  | done {t₁ t₂ : List DrvEvent} {rc : ℤ} {h h' : Handle} :
      FreeRun .env d.envHandle t₁ cspiOk h → FreeRun .con d.conHandle t₂ rc h' →
      DeinitRun d (t₁ ++ t₂) rc { d.setOperation .deinit with envHandle := h, conHandle := h' }

theorem deinitIO_runs (hr : d.deinitIO.Runs tr (rc, d')) : d.DeinitRun tr rc d' := by
  obtain ⟨t₁, t₂, ⟨rc₁, h⟩, rfl, hfree, hr⟩ := Prog.runs_bind.1 hr
  have hfree := freeHandle_runs hfree
  dsimp only at hr
  split at hr
  · next hrc =>
    obtain ⟨rfl, he⟩ := hr
    obtain ⟨rfl, rfl⟩ := Prod.mk.inj he
    rw [List.append_nil]
    exact .envKept hfree hrc
  · next hrc =>
    obtain rfl : rc₁ = cspiOk := not_not.1 hrc
    obtain ⟨t₂, _, ⟨rc₂, h'⟩, rfl, hfree', hr⟩ := Prog.runs_bind.1 hr
    have hfree' := freeHandle_runs hfree'
    simp only [Prog.runs_ite, Prog.runs_pure, Prod.mk.injEq] at hr
    split at hr
    · obtain ⟨rfl, rfl, rfl⟩ := hr
      rw [List.append_nil]
      exact .done hfree hfree'
    · next hrc =>
      obtain rfl : rc₂ = cspiOk := not_not.1 hrc
      obtain ⟨rfl, rfl, rfl⟩ := hr
      rw [List.append_nil]
      exact .done hfree hfree'

/-! ## Live handles -/

/-- What a call with its answer makes of the handles that are live. -/
def liveStep (live : List (HandleType × Handle)) : DrvEvent → List (HandleType × Handle)
  | ⟨.inl (.allochandle t _), x⟩ => if x.1 = cspiOk then (t, x.2) :: live else live
  | ⟨.inl (.freehandle t h), rc⟩ => if rc = cspiOk then live.filter (· ≠ (t, h)) else live
  | _ => live

/-- The handles that are live after the moves of a history. -/
def liveMove (live : List (HandleType × Handle)) (m : DriverMove) : List (HandleType × Handle) :=
  m.events.foldl liveStep live

def liveAfter (ms : List DriverMove) : List (HandleType × Handle) := ms.foldl liveMove []

/-- Both handles of the driver are live. -/
def Driver.Live (d : Driver) (live : List (HandleType × Handle)) : Prop :=
  ∀ h ∈ d.handles, h ∈ live

/-- The driver was set up by an `initIO` that went through, and not released since. -/
def readyMove (ready : Bool) (m : DriverMove) : Bool :=
  match m.op, m.result with
  | DriverOp.initIO, .code rc => if m.before.cfg.operation = .deinit then rc = 0 else ready
  | DriverOp.deinitIO, _ => false
  | _, _ => ready

def readyAfter (ms : List DriverMove) : Bool := ms.foldl readyMove false

variable {live : List (HandleType × Handle)} {m : DriverMove} {ms : List DriverMove}

theorem foldl_liveStep (htr : ∀ e ∈ tr, managesHandles e.1 = false) :
    tr.foldl liveStep live = live := by
  induction tr with
  | nil => rfl
  | cons e tr ih =>
    obtain ⟨he, htr⟩ := List.forall_mem_cons.1 htr
    have hstep : liveStep live e = live := by
      obtain ⟨c | c, x⟩ := e
      · cases c <;> first | rfl | cases he
      · rfl
    rw [List.foldl_cons, hstep]
    exact ih htr

/-- An `initIO` that does its work and returns `0` leaves live handles. -/
theorem Driver.InitRun.live_of_done (hr : d.InitRun tr rc d') (hop : d.cfg.operation = .deinit)
    (hrc : rc = 0) : d'.Live (tr.foldl liveStep live) := by
  cases hr with
  | skipped h => exact absurd hop h
  | noEnv rc₀ x _ hx => exact absurd hrc hx
  | unset rc₀ h y _ hy => exact absurd hrc hy
  | done rc₀ h ep z =>
    obtain ⟨rc, h'⟩ := z
    obtain rfl : rc = cspiOk := hrc
    simp [Driver.Live, Driver.handles, liveStep]

/-- An `initIO` that does nothing. -/
theorem Driver.InitRun.of_ne (hr : d.InitRun tr rc d') (hop : d.cfg.operation ≠ .deinit) :
    tr = [] ∧ rc = 0 ∧ d' = d := by
  cases hr with
  | skipped => exact ⟨rfl, rfl, rfl⟩
  | _ => contradiction

/-- `iop` and `read` use the handles of the driver, and leave them as they are. -/
theorem move_uses (h : m.Valid Driver.step) (hi : m.op ≠ DriverOp.initIO)
    (hd : m.op ≠ DriverOp.deinitIO) :
    m.before.SameHandles m.after ∧ ∀ e ∈ m.events, m.before.Uses e.1 := by
  cases hop : m.op with
  | initIO => exact absurd hop hi
  | deinitIO => exact absurd hop hd
  | iop q =>
    obtain ⟨o, out, -, h⟩ := move_iop h hop
    exact (h.of_confined (iop_confined _ q)).symm
  | read buffer addr n =>
    obtain ⟨r, -, h, hafter⟩ := move_read h hop
    rw [hafter]
    exact ⟨⟨rfl, rfl⟩, (h.of_confined (read_confined _ buffer addr n)).1⟩

theorem Driver.SameHandles.live_iff (h : d.SameHandles d') : d'.Live live ↔ d.Live live := by
  rw [Driver.Live, Driver.Live, Driver.handles, Driver.handles, h.1, h.2]

theorem liveAfter_append : liveAfter (ms ++ [m]) = liveMove (liveAfter ms) m := by
  rw [liveAfter, List.foldl_append]
  rfl

theorem readyAfter_append : readyAfter (ms ++ [m]) = readyMove (readyAfter ms) m := by
  rw [readyAfter, List.foldl_append]
  rfl

/-- A move other than `initIO` and `deinitIO` changes neither the live handles nor the readiness. -/
theorem move_quiet (h : m.Valid Driver.step) (hi : m.op ≠ DriverOp.initIO)
    (hd : m.op ≠ DriverOp.deinitIO) :
    liveMove live m = live ∧ ∀ b, readyMove b m = b := by
  refine ⟨foldl_liveStep fun e he => ((move_uses h hi hd).2 e he).1, fun b => ?_⟩
  unfold readyMove
  split <;> first | contradiction | rfl

/-- Every move keeps the handles of a driver that is ready alive. -/
theorem ready_move (h : m.Valid Driver.step)
    (hI : readyAfter ms → m.before.Live (liveAfter ms)) :
    readyAfter (ms ++ [m]) → m.after.Live (liveAfter (ms ++ [m])) := by
  rw [readyAfter_append, liveAfter_append]
  intro hready
  by_cases hi : m.op = DriverOp.initIO
  · obtain ⟨rc, hres, hr⟩ := move_initIO h hi
    have hr := initIO_runs hr
    by_cases hop : m.before.cfg.operation = .deinit
    · refine hr.live_of_done hop ?_
      simpa [readyMove, hi, hres, hop] using hready
    · obtain ⟨hev, -, hafter⟩ := hr.of_ne hop
      rw [liveMove, hev, hafter]
      refine hI ?_
      simpa [readyMove, hi, hres, hop] using hready
  · by_cases hd : m.op = DriverOp.deinitIO
    · rw [readyMove, hd] at hready
      cases hready
    · obtain ⟨hlive, hb⟩ := move_quiet h hi hd
      rw [hlive, (move_uses h hi hd).1.live_iff]
      exact hI (by rwa [hb] at hready)

/-- An `initIO` that returns `0` leaves live handles exactly when it did its work or found them. -/
theorem init_live_iff (h : m.Valid Driver.step) (hop : m.op = DriverOp.initIO)
    (hret : m.result = .code 0) :
    m.after.Live (liveAfter (ms ++ [m])) ↔
      m.before.cfg.operation = .deinit ∨ m.before.Live (liveAfter ms) := by
  obtain ⟨rc, hres, hr⟩ := move_initIO h hop
  have hr := initIO_runs hr
  have hrc : rc = 0 := by
    rw [hret] at hres
    exact (DriverResult.code.inj hres).symm
  rw [liveAfter_append]
  by_cases hd : m.before.cfg.operation = .deinit
  · exact iff_of_true (hr.live_of_done hd hrc) (.inl hd)
  · obtain ⟨hev, -, hafter⟩ := hr.of_ne hd
    rw [liveMove, hev, hafter, or_iff_right hd]
    rfl

/-- Every `initIO` of the history finds the operation `deinit`, or a driver that is set up. -/
def InitsInOrder (ms : List DriverMove) : Prop :=
  ∀ ms₁ m ms₂, ms = ms₁ ++ m :: ms₂ → m.op = DriverOp.initIO →
    m.before.cfg.operation = .deinit ∨ readyAfter ms₁

/-- **Successful initialisation means live handles** exactly when `initIO` found the operation
`deinit` or handles that were live. When every `initIO` of a history finds the operation `deinit` or
a driver that is set up, each one that returns `0` leaves a driver that is set up with live handles,
and until it is released no `iop` or `read` passes any other handle to the library. -/
theorem init_contract {u : Uninitialised} (h : History Driver.step (Driver.construct u) ms d') :
    (∀ ms₁ m ms₂, ms = ms₁ ++ m :: ms₂ → m.op = DriverOp.initIO → m.result = .code 0 →
      (m.after.Live (liveAfter (ms₁ ++ [m])) ↔
        m.before.cfg.operation = .deinit ∨ m.before.Live (liveAfter ms₁))) ∧
    (InitsInOrder ms → ∀ ms₁ m ms₂, ms = ms₁ ++ m :: ms₂ →
      (m.op = DriverOp.initIO → m.result = .code 0 →
        readyAfter (ms₁ ++ [m]) ∧ m.after.Live (liveAfter (ms₁ ++ [m]))) ∧
      (readyAfter ms₁ → m.op ≠ DriverOp.initIO → m.op ≠ DriverOp.deinitIO →
        ∀ e ∈ m.events, ∀ k ∈ usedHandles e.1, k ∈ liveAfter ms₁)) := by
  have hvalid : ∀ ms₁ m ms₂, ms = ms₁ ++ m :: ms₂ → m.Valid Driver.step := by
    rintro ms₁ m ms₂ rfl
    exact h.valid m (by simp)
  have hready := History.rule_prefix (I := fun ms d => readyAfter ms → d.Live (liveAfter ms))
    (P := fun ms m => readyAfter ms → m.before.Live (liveAfter ms))
    (fun ms m hm hI => ⟨hI, ready_move hm hI⟩) h (fun hr => by cases hr)
  refine ⟨fun ms₁ m ms₂ he hop => init_live_iff (hvalid ms₁ m ms₂ he) hop, ?_⟩
  intro horder ms₁ m ms₂ he
  have hm := hvalid ms₁ m ms₂ he
  refine ⟨fun hop hret => ?_, fun hr hi hd e hev k hk => ?_⟩
  · have hr : readyAfter (ms₁ ++ [m]) := by
      rw [readyAfter_append]
      rcases horder ms₁ m ms₂ he hop with hd | hr
      · simp [readyMove, hop, hret, hd]
      · simp [readyMove, hop, hret, hr]
    exact ⟨hr, ready_move hm (hready.1 ms₁ m ms₂ he) hr⟩
  · exact hready.1 ms₁ m ms₂ he hr k (((move_uses hm hi hd).2 e hev).2 k hk)

/-- A library that has no memory for a connection. -/
def noConnection : Handler DrvCall DrvAns Unit
  | .inl (.allochandle .con _), _ => some ((cspiEMalloc, .null), ())
  | c, _ => calmDrv c ()

theorem noConnection_moves :
    ∃ m₁ m₂, execAll noConnection Driver.step [DriverOp.initIO, DriverOp.initIO]
    freshDriver () = some [m₁, m₂] ∧ m₁.result = .code cspiEMalloc ∧ m₂.result = .code 0 ∧
      (.con, m₂.after.conHandle) ∉ liveAfter [m₁, m₂] :=
  ⟨_, _, rfl, rfl, rfl, by decide⟩

/-- After an `initIO` that found no memory for the connection, a second one returns `0` and leaves
the connection handle null. -/
theorem init_half_way : ¬∀ (u : Uninitialised) (ms : List DriverMove) (d' : Driver),
    History Driver.step (Driver.construct u) ms d' → ∀ ms₁ m ms₂, ms = ms₁ ++ m :: ms₂ →
      m.op = DriverOp.initIO → m.result = .code 0 → m.after.Live (liveAfter (ms₁ ++ [m])) := by
  intro h
  obtain ⟨m₁, m₂, hms, -, hret, hcon⟩ := noConnection_moves
  obtain ⟨d', hh⟩ := History.of_execAll hms
  have hop : m₂.op = DriverOp.initIO := (List.cons.inj (List.cons.inj (execAll_ops hms)).2).1
  have hlive := h _ _ _ hh [m₁] m₂ [] rfl hop hret
  exact hcon (hlive _ (by simp [Driver.handles]))

/-- The contract in a calm history. -/
theorem init_contract_calm : ∃ ms d', History Driver.step freshDriver ms d' ∧
    ms.map Move.op = [DriverOp.initIO, .iop .getTs, DriverOp.deinitIO, DriverOp.initIO] ∧
    (∀ ms₁ m ms₂, ms = ms₁ ++ m :: ms₂ → m.op = DriverOp.initIO → m.result = .code 0 →
      (m.after.Live (liveAfter (ms₁ ++ [m])) ↔
        m.before.cfg.operation = .deinit ∨ m.before.Live (liveAfter ms₁))) ∧
    (InitsInOrder ms → ∀ ms₁ m ms₂, ms = ms₁ ++ m :: ms₂ →
      (m.op = DriverOp.initIO → m.result = .code 0 →
        readyAfter (ms₁ ++ [m]) ∧ m.after.Live (liveAfter (ms₁ ++ [m]))) ∧
      (readyAfter ms₁ → m.op ≠ DriverOp.initIO → m.op ≠ DriverOp.deinitIO →
        ∀ e ∈ m.events, ∀ k ∈ usedHandles e.1, k ∈ liveAfter ms₁)) := by
  obtain ⟨ms, hms⟩ : ∃ ms,
    execAll calmDrv Driver.step [DriverOp.initIO, .iop .getTs, DriverOp.deinitIO, DriverOp.initIO]
      freshDriver () = some ms := ⟨_, rfl⟩
  obtain ⟨d', hh⟩ := History.of_execAll hms
  exact ⟨ms, d', hh, execAll_ops hms, init_contract hh⟩

end LiberaDaq
