import LiberaDaq.Command.Turn

/-!
# The start of an acquisition

The runs of `setHandler` on top of the driver (`setup_runs`). It stops the driver, reads the
request, sizes the output attribute, hands samples and offset to the driver and starts the
acquisition; every way it can end before that is a case of its own.
-/

namespace LiberaDaq

open Cspi Interaction Prog

variable {c c' : AcquireCmd} {d d' : Driver} {t : List UnitEvent} {e : Exit} {r : Request}
  {w : Word} {a : Attr}

/-! ## What a request makes of the command and the driver -/

/-- The members that `setHandler` takes from the request before it touches the dataset. -/
def AcquireCmd.requested (c : AcquireCmd) (r : Request) : AcquireCmd :=
  { c.reset with acquireDuration := r.duration.getD 0, loops := r.loops.getD 1 }

/-- The command with its vector attributes emptied. -/
def AcquireCmd.emptied (c : AcquireCmd) : AcquireCmd :=
  { c with out :=
    (((c.out.resize .sa 0).resize .dd 0).resize .adcCw 0).resize .adcSp 0 }

/-- The request asks for a positive number of samples, or a positive offset. -/
def Request.hasSamples (r : Request) : Bool := (0 : Word).slt r.tsamples

def Request.hasOffset (r : Request) : Bool := (0 : Word).slt r.toffset

/-- The command with the attribute sized for the samples of the request, if it has any. -/
def AcquireCmd.sized (c : AcquireCmd) (r : Request) (a : Attr) : AcquireCmd :=
  if r.hasSamples then
    { c with
      out := c.out.resize a (r.tsamples * BitVec.ofNat 32 a.kind.size).toNat
      samples := r.tsamples }
  else c

/-- The command with the offset of the request, if it has one. -/
def AcquireCmd.sought (c : AcquireCmd) (r : Request) : AcquireCmd :=
  if r.hasOffset then { c with offset := r.toffset } else c

/-- The command just before ACQUIRE. -/
def AcquireCmd.prepared (c : AcquireCmd) (r : Request) (a : Attr) : AcquireCmd :=
  (((c.requested r).emptied).sized r a).sought r

/-- What `setHandler` took from the request by then. -/
theorem prepared_cmd (c : AcquireCmd) (r : Request) (a : Attr) :
    (c.prepared r a).samples = (if r.hasSamples then r.tsamples else c.samples) ∧
    (c.prepared r a).loops = r.loops.getD 1 ∧
    (c.prepared r a).acquireDuration = r.duration.getD 0 ∧ (c.prepared r a).out.error = 0 := by
  unfold AcquireCmd.prepared AcquireCmd.sought AcquireCmd.sized
  cases r.hasSamples <;> cases r.hasOffset <;> exact ⟨rfl, rfl, rfl, rfl⟩

/-- The driver with the samples and the offset of the request, as far as it has them. -/
def Driver.taking (d : Driver) (r : Request) : Driver :=
  let d := if r.hasSamples then d.setSamples r.tsamples else d
  if r.hasOffset then d.setOffset r.toffset else d

/-- The driver just before ACQUIRE. -/
def Driver.prepared (d : Driver) (r : Request) : Driver := (d.setOperation .unknown).taking r

/-- The command after an accepted request. -/
def AcquireCmd.accepted (c : AcquireCmd) (w : Word) (now : BitVec 64) : AcquireCmd :=
  { c with
    mode := w
    out := { c.out with mode := w, samples := c.samples, acquisition := 0 }
    startAcquire := now
    running := .normal }

/-! ## The runs -/

/-- Every event is a call of the framework, or reads uninitialised memory in the driver. -/
def Silent (t : List UnitEvent) : Prop :=
  ∀ e ∈ t, (∃ f x, e = frameEvent f x) ∨ ∃ ep, e = leftEvent (hostEvent .uninitEnv ep)

/-- The events of `setHandler` up to the STOP. -/
abbrev Driver.openEvents (d : Driver) (ep : EnvParams) (x : ℤ) : List UnitEvent :=
  frameEvent .getAccessor true :: d.stopEvents ep x

/-- The runs of `iop(ACQUIRE)`, as a driver `d` that is not acquiring makes them. -/
def Driver.AcquireRun (d : Driver) (w : Word) (t : List UnitEvent) (rc : ℤ) (d' : Driver) : Prop :=
  ∃ ep t₁ t₂, t = driverEvents (hostEvent .uninitEnv ep :: (t₁ ++ t₂)) ∧ d.ModeRun w ep t₁ ∧
    (d.acquired w).iopTail.Runs t₂ (rc, d')

/-- The runs of `setHandler`. -/
inductive AcquireCmd.SetRun (c : AcquireCmd) (d : Driver) (r : Request) :
    List UnitEvent → Exit → AcquireCmd → Driver → Prop
  | noDriver : SetRun c d r [frameEvent .getAccessor false]
      (.throw (-1) "Cannot retrieve the requested driver")
      { c with mode := 0, offset := 0, loops := 1, acquireDuration := 0 } d
  | disabled (ep : EnvParams) (x : ℤ) : r.enable = some 0 →
      SetRun c d r (d.openEvents ep x) .return
        (AcquireCmd.publishMode { c.reset with loops := 0 } 0).end (d.setOperation .unknown)
  | modeless (ep : EnvParams) (x : ℤ) : r.enable ≠ some 0 → r.mode = none →
      SetRun c d r (d.openEvents ep x) (.throw 1 "You have to specify a mode")
        { c.reset with acquireDuration := r.duration.getD 0 } (d.setOperation .unknown)
  | refused (ep : EnvParams) (x : ℤ) (w : Word) {t : List UnitEvent} {c' : AcquireCmd} :
      r.enable ≠ some 0 → r.mode = some w → Silent t → c'.out.mode = c.out.mode →
      SetRun c d r (d.openEvents ep x ++ t) .framework c' (d.setOperation .unknown)
  | unsupported (ep : EnvParams) (x : ℤ) (w : Word) {t : List UnitEvent} :
      r.enable ≠ some 0 → r.mode = some w → chosenAttr w = none → Silent t →
      SetRun c d r (d.openEvents ep x ++ t) (.throw 1 "Unsupported mode")
        (((c.requested r).emptied).raise liberaErrorSwconfig).end (d.setOperation .unknown)
  | unstarted (ep : EnvParams) (x : ℤ) (w : Word) (a : Attr) (rc : ℤ) {t t' : List UnitEvent}
      {d' : Driver} : r.enable ≠ some 0 → r.mode = some w → chosenAttr w = some a → Silent t →
      (d.prepared r).AcquireRun w t' rc d' → rc ≠ 0 →
      SetRun c d r (d.openEvents ep x ++ (t ++ t')) (.throw rc "Cannot start acquire")
        (c.prepared r a).end d'
  | started (ep : EnvParams) (x : ℤ) (w : Word) (a : Attr) (now : BitVec 64)
      {t t' : List UnitEvent} {d' : Driver} : r.enable ≠ some 0 → r.mode = some w →
      chosenAttr w = some a → Silent t → (d.prepared r).AcquireRun w t' 0 d' →
      SetRun c d r (d.openEvents ep x ++ (t ++ (t' ++ [frameEvent .now now]))) .return
        ((c.prepared r a).accepted w now) d'

/-! ## The steps of setHandler -/

theorem silent_nil : Silent [] := by simp [Silent]

theorem silent_frame {f : FrameCall} {x : FrameAns f} (h : Silent t) :
    Silent (frameEvent f x :: t) := by
  rintro e (_ | ⟨_, he⟩)
  · exact .inl ⟨f, x, rfl⟩
  · exact h e he

theorem silent_uninit {ep : EnvParams} : Silent (driverEvents [hostEvent .uninitEnv ep]) := by
  rintro e he
  exact .inr ⟨ep, List.mem_singleton.1 he⟩

theorem Silent.append {t' : List UnitEvent} (h : Silent t) (h' : Silent t') : Silent (t ++ t') := by
  intro e he
  rcases List.mem_append.1 he with he | he
  · exact h e he
  · exact h' e he

/-- The command with some of its attributes given a new size. -/
def AcquireCmd.resized (c : AcquireCmd) (size : ℕ) (as : List Attr) : AcquireCmd :=
  { c with out := as.foldl (fun o a => o.resize a size) c.out }

theorem resizeAll_runs {size : ℕ} {as : List Attr} {ok : Bool}
    (h : ((resizeAll size as c).interp unitImpl d).Runs t ((ok, c'), d')) :
    Silent t ∧ d' = d ∧ c'.out.mode = c.out.mode ∧ (ok = true → c' = c.resized size as) := by
  induction as generalizing c t with
  | nil =>
    obtain ⟨rfl, h⟩ := h
    obtain ⟨⟨rfl, rfl⟩, rfl⟩ := (Prod.mk.inj h).imp_left Prod.mk.inj
    exact ⟨silent_nil, rfl, rfl, fun _ => rfl⟩
  | cons a as ih =>
    simp only [resizeAll, perform_bind, interp_call, interp_ite, interp_pure, runs_bind, runs_ite,
      runs_pure, Prod.mk.injEq] at h
    obtain ⟨_, t₂, ⟨x, d₁⟩, rfl, hx, h⟩ := h
    obtain ⟨rfl, rfl⟩ := unit_frame_runs.1 hx
    split at h
    · obtain ⟨hs, rfl, hm, hok⟩ := ih h
      exact ⟨silent_frame hs, rfl, hm, hok⟩
    · obtain ⟨rfl, ⟨rfl, rfl⟩, rfl⟩ := h
      exact ⟨silent_frame silent_nil, rfl, rfl, by simp⟩

theorem unit_setSamples_runs {n : Word} {rc : ℤ} {out : IopOut} (hd : d.cfg.operation ≠ .acquire)
    (h : (unitImpl (.inl (.iop (.setSamples n))) d).Runs t ((rc, out), d')) :
    Silent t ∧ d' = d.setSamples n := by
  obtain ⟨tr, o, rfl, hi, rfl⟩ := unit_iop_runs.1 h
  obtain ⟨ep, rfl, rfl, rfl, rfl⟩ := (iop_setSamples_runs hd).1 hi
  exact ⟨silent_uninit, rfl⟩

theorem unit_setOffset_runs {n : Word} {rc : ℤ} {out : IopOut} (hd : d.cfg.operation ≠ .acquire)
    (h : (unitImpl (.inl (.iop (.setOffset n))) d).Runs t ((rc, out), d')) :
    Silent t ∧ d' = d.setOffset n := by
  obtain ⟨tr, o, rfl, hi, rfl⟩ := unit_iop_runs.1 h
  obtain ⟨ep, rfl, rfl, rfl, rfl⟩ := (iop_setOffset_runs hd).1 hi
  exact ⟨silent_uninit, rfl⟩

theorem sizeAttr_runs {ok : Bool} (hd : d.cfg.operation ≠ .acquire)
    (h : ((c.sizeAttr a r.tsamples).interp unitImpl d).Runs t ((ok, c'), d')) :
    Silent t ∧ c'.out.mode = c.out.mode ∧
      if ok then c' = c.sized r a ∧ d' = if r.hasSamples then d.setSamples r.tsamples else d
      else d' = d := by
  unfold AcquireCmd.sizeAttr at h
  split at h
  · next hs =>
    have hs : r.hasSamples = true := hs
    simp only [interp_bind, runs_bind] at h
    obtain ⟨t₁, t₂, ⟨⟨ok₁, c₁⟩, d₁⟩, rfl, hr, h⟩ := h
    obtain ⟨hsil, rfl, hm, hc₁⟩ := resizeAll_runs hr
    cases ok₁ with
    | false =>
      obtain ⟨rfl, h⟩ := h
      obtain ⟨⟨rfl, rfl⟩, rfl⟩ := (Prod.mk.inj h).imp_left Prod.mk.inj
      rw [List.append_nil]
      exact ⟨hsil, hm, rfl⟩
    | true =>
      obtain rfl := hc₁ rfl
      simp only [if_true, perform_bind, interp_call, interp_pure, runs_bind, runs_pure,
        Prod.mk.injEq] at h
      obtain ⟨t₃, _, ⟨⟨rc, out⟩, d₂⟩, rfl, hi, rfl, ⟨rfl, rfl⟩, rfl⟩ := h
      obtain ⟨hsil', rfl⟩ := unit_setSamples_runs hd hi
      rw [List.append_nil]
      refine ⟨hsil.append hsil', hm, ?_, ?_⟩
      · rw [AcquireCmd.sized, if_pos hs]
        rfl
      · rw [if_pos hs]
  · next hs =>
    have hs : ¬r.hasSamples = true := hs
    obtain ⟨rfl, h⟩ := h
    obtain ⟨⟨rfl, rfl⟩, rfl⟩ := (Prod.mk.inj h).imp_left Prod.mk.inj
    refine ⟨silent_nil, rfl, ?_, ?_⟩
    · rw [AcquireCmd.sized, if_neg hs]
    · rw [if_neg hs]

theorem unit_acquire_runs {rc : ℤ} {out : IopOut}
    (h : (unitImpl (.inl (.iop (.acquire w))) d).Runs t ((rc, out), d')) :
    d.AcquireRun w t rc d' := by
  obtain ⟨tr, o, rfl, hi, rfl⟩ := unit_iop_runs.1 h
  obtain ⟨ep, t₁, t₂, rc, rfl, hm, ht, rfl, rfl⟩ := iop_acquire_runs.1 hi
  exact ⟨ep, t₁, t₂, rfl, hm, ht⟩

theorem seek_runs (hd : d.cfg.operation ≠ .acquire)
    (h : ((c.seek r).interp unitImpl d).Runs t (c', d')) :
    Silent t ∧ c' = c.sought r ∧ d' = if r.hasOffset then d.setOffset r.toffset else d := by
  unfold AcquireCmd.seek at h
  unfold AcquireCmd.sought
  split at h
  · next ho =>
    have ho : r.hasOffset = true := ho
    simp only [perform_bind, interp_call, interp_pure, runs_bind, runs_pure, Prod.mk.injEq] at h
    obtain ⟨_, _, ⟨⟨rc, out⟩, d₂⟩, rfl, hi, rfl, rfl, rfl⟩ := h
    obtain ⟨hsil, rfl⟩ := unit_setOffset_runs hd hi
    rw [List.append_nil, if_pos ho, if_pos ho]
    exact ⟨hsil, rfl, rfl⟩
  · next ho =>
    have ho : ¬r.hasOffset = true := ho
    obtain ⟨rfl, h⟩ := h
    obtain ⟨rfl, rfl⟩ := Prod.mk.inj h
    rw [if_neg ho, if_neg ho]
    exact ⟨silent_nil, rfl, rfl⟩

/-- The runs of `setHandler` from the offset on. -/
theorem start_runs (hd : d.cfg.operation ≠ .acquire)
    (h : ((c.start r w).interp unitImpl d).Runs t ((e, c'), d')) :
    ∃ t₁ t₂ rc, Silent t₁ ∧
      (if r.hasOffset then d.setOffset r.toffset else d).AcquireRun w t₂ rc d' ∧
      ((t = t₁ ++ t₂ ∧ rc ≠ 0 ∧ e = .throw rc "Cannot start acquire" ∧ c' = (c.sought r).end) ∨
      (∃ now, t = t₁ ++ (t₂ ++ [frameEvent .now now]) ∧ rc = 0 ∧ e = .return ∧
        c' = (c.sought r).accepted w now)) := by
  simp only [AcquireCmd.start, perform_bind, interp_call, interp_bind, runs_bind] at h
  obtain ⟨t₁, _, ⟨c₁, d₁⟩, rfl, hseek, t₂, t₃, ⟨⟨rc, out⟩, d₂⟩, rfl, hacq, h⟩ := h
  obtain ⟨hsil, rfl, rfl⟩ := seek_runs hd hseek
  have hacq := unit_acquire_runs hacq
  split at h
  · next hrc =>
    obtain ⟨rfl, h⟩ := h
    obtain ⟨⟨rfl, rfl⟩, rfl⟩ := (Prod.mk.inj h).imp_left Prod.mk.inj
    exact ⟨t₁, t₂, rc, hsil, hacq, .inl ⟨by simp, hrc, rfl, rfl⟩⟩
  · next hrc =>
    simp only [AcquireCmd.started, perform_bind, interp_call, interp_pure, runs_bind, runs_pure,
      Prod.mk.injEq] at h
    obtain ⟨_, _, ⟨now, d₃⟩, rfl, hnow, rfl, ⟨rfl, rfl⟩, rfl⟩ := h
    obtain ⟨rfl, rfl⟩ := unit_frame_runs.1 hnow
    exact ⟨t₁, t₂, rc, hsil, hacq, .inr ⟨now, by simp, not_not.1 hrc, rfl, rfl⟩⟩

/-- The runs of `setHandler` for a mode word, after the STOP. -/
inductive AcquireCmd.ConfigureRun (c : AcquireCmd) (d : Driver) (r : Request) (w : Word) :
    List UnitEvent → Exit → AcquireCmd → Driver → Prop
  | refused {t : List UnitEvent} {c' : AcquireCmd} : Silent t → c'.out.mode = c.out.mode →
      ConfigureRun c d r w t .framework c' d
  | unsupported {t : List UnitEvent} : chosenAttr w = none → Silent t →
      ConfigureRun c d r w t (.throw 1 "Unsupported mode")
        (c.emptied.raise liberaErrorSwconfig).end d
  | unstarted (a : Attr) (rc : ℤ) {t t' : List UnitEvent} {d' : Driver} :
      chosenAttr w = some a → Silent t → (d.taking r).AcquireRun w t' rc d' → rc ≠ 0 →
      ConfigureRun c d r w (t ++ t') (.throw rc "Cannot start acquire")
        ((c.emptied.sized r a).sought r).end d'
  | started (a : Attr) (now : BitVec 64) {t t' : List UnitEvent} {d' : Driver} :
      chosenAttr w = some a → Silent t → (d.taking r).AcquireRun w t' 0 d' →
      ConfigureRun c d r w (t ++ (t' ++ [frameEvent .now now])) .return
        (((c.emptied.sized r a).sought r).accepted w now) d'

theorem configure_runs (hd : d.cfg.operation ≠ .acquire) (hm : c.mode = 0)
    (h : ((c.configure r w).interp unitImpl d).Runs t ((e, c'), d')) :
    ({ c with loops := r.loops.getD c.loops } : AcquireCmd).ConfigureRun d r w t e c' d' := by
  have hsa : hits c.mode liberaIopModeSa = false := by rw [hm]; rfl
  simp only [AcquireCmd.configure, hsa, interp_bind, runs_bind] at h
  obtain ⟨t₁, t₂, ⟨⟨ok, c₁⟩, d₁⟩, rfl, hempty, h⟩ := h
  obtain ⟨hsil, rfl, hmode, hc₁⟩ := resizeAll_runs hempty
  cases ok with
  | false =>
    obtain ⟨rfl, h⟩ := h
    obtain ⟨⟨rfl, rfl⟩, rfl⟩ := (Prod.mk.inj h).imp_left Prod.mk.inj
    rw [List.append_nil]
    exact .refused hsil hmode
  | true =>
    obtain rfl := hc₁ rfl
    cases ha : chosenAttr w with
    | none =>
      simp only [ha, if_true, interp_pure, runs_pure, Prod.mk.injEq] at h
      obtain ⟨rfl, ⟨rfl, rfl⟩, rfl⟩ := h
      rw [List.append_nil]
      exact .unsupported ha hsil
    | some a =>
      simp only [ha, if_true, interp_bind, runs_bind] at h
      obtain ⟨t₂, t₃, ⟨⟨ok, c₂⟩, d₂⟩, rfl, hsize, h⟩ := h
      obtain ⟨hsil', hmode', hok⟩ := sizeAttr_runs hd hsize
      cases ok with
      | false =>
        obtain rfl : d₂ = d₁ := hok
        obtain ⟨rfl, h⟩ := h
        obtain ⟨⟨rfl, rfl⟩, rfl⟩ := (Prod.mk.inj h).imp_left Prod.mk.inj
        rw [List.append_nil]
        exact .refused (hsil.append hsil') (hmode'.trans hmode)
      | true =>
        obtain ⟨rfl, rfl⟩ := hok
        have hd₂ : (if r.hasSamples then d₁.setSamples r.tsamples else d₁).cfg.operation ≠
            .acquire := by split <;> exact hd
        obtain ⟨t₁', t₂', rc, hsil₁, hacq, hend⟩ := start_runs hd₂ h
        have hs := (hsil.append hsil').append hsil₁
        rcases hend with ⟨rfl, hrc, rfl, rfl⟩ | ⟨now, rfl, rfl, rfl, rfl⟩
        · rw [← List.append_assoc, ← List.append_assoc]
          exact .unstarted a rc ha hs hacq hrc
        · rw [← List.append_assoc, ← List.append_assoc]
          exact .started a now ha hs hacq

/-- **The runs of `setHandler`.** -/
theorem setup_runs (h : ((c.setHandler r).interp unitImpl d).Runs t ((e, c'), d')) :
    c.SetRun d r t e c' d' := by
  simp only [AcquireCmd.setHandler, perform_bind, interp_ite, interp_call, runs_ite,
    runs_bind] at h
  obtain ⟨_, _, ⟨acc, d₁⟩, rfl, hacc, h⟩ := h
  obtain ⟨rfl, rfl⟩ := unit_frame_runs.1 hacc
  split at h
  · next hacc =>
    obtain rfl : acc = true := hacc
    obtain ⟨_, t₂, ⟨⟨rc, out⟩, d₂⟩, rfl, hstop, h⟩ := h
    obtain ⟨ep, x, rfl, rfl, rfl, rfl⟩ := unit_stop_runs.1 hstop
    rw [if_neg (by simp)] at h
    unfold AcquireCmd.request at h
    split at h
    · next hen =>
      obtain ⟨rfl, h⟩ := h
      obtain ⟨⟨rfl, rfl⟩, rfl⟩ := (Prod.mk.inj h).imp_left Prod.mk.inj
      exact .disabled ep x hen
    · next hen =>
      cases hmode : r.mode with
      | none =>
        simp only [hmode, interp_pure, runs_pure, Prod.mk.injEq] at h
        obtain ⟨rfl, ⟨rfl, rfl⟩, rfl⟩ := h
        exact .modeless ep x hen hmode
      | some w =>
        simp only [hmode] at h
        have h := configure_runs (by simp) rfl h
        rcases h with ⟨hs, hm⟩ | ⟨ha, hs⟩ | ⟨a, rc, ha, hs, hacq, hrc⟩ | ⟨a, now, ha, hs, hacq⟩
        · exact .refused ep x w hen hmode hs hm
        · exact .unsupported ep x w hen hmode ha hs
        · exact .unstarted ep x w a rc hen hmode ha hs hacq hrc
        · exact .started ep x w a now hen hmode ha hs hacq
  · next hacc =>
    obtain ⟨rfl, h⟩ := h
    obtain ⟨⟨rfl, rfl⟩, rfl⟩ := (Prod.mk.inj h).imp_left Prod.mk.inj
    obtain rfl : acc = false := by simpa using hacc
    exact .noDriver

/-! ## The moves of a station -/

variable {m : StationMove}

theorem leave_runs {p : CmdProg (Exit × AcquireCmd)} {s : Station}
    (h : (p.interp unitImpl d >>= fun x => Pure.pure (Station.leave x)).Runs t (e, s)) :
    (p.interp unitImpl d).Runs t ((e, s.cmd), s.driver) ∧ (s.threw = true ↔ e ≠ .return) := by
  obtain ⟨t₁, t₂, ⟨⟨e₁, c₁⟩, d₁⟩, rfl, hp, rfl, hl⟩ := runs_bind.1 h
  obtain ⟨rfl, rfl⟩ := Prod.mk.inj hl
  exact ⟨by simpa using hp, by simp⟩

/-- A move with a request is a run of `setHandler`. -/
theorem move_set (h : m.Valid Station.step) (hop : m.op = .set r) :
    m.before.cmd.SetRun m.before.driver r m.events m.result m.after.cmd m.after.driver ∧
      (m.after.threw = true ↔ m.result ≠ .return) := by
  unfold Move.Valid at h
  rw [hop] at h
  obtain ⟨h, ht⟩ := leave_runs h
  exact ⟨setup_runs h, ht⟩

/-- The move accepts a request: it started the acquisition. -/
def Accepts (m : StationMove) (r : Request) : Prop :=
  m.op = .set r ∧ r.enable ≠ some 0 ∧ m.result = .return

theorem Driver.AcquireRun.runs {t : List UnitEvent} {rc : ℤ} (h : d.AcquireRun w t rc d') :
    ∃ tr, t = driverEvents tr ∧ (d.iop (.acquire w)).Runs tr (.ret rc, .none, d') := by
  obtain ⟨ep, t₁, t₂, rfl, hm, ht⟩ := h
  exact ⟨_, rfl, iop_acquire_runs.2 ⟨ep, t₁, t₂, rc, rfl, hm, ht, rfl, rfl⟩⟩

/-- What an accepted request made of the command and of the driver. -/
theorem accepts_runs (h : m.Valid Station.step) (ha : Accepts m r) :
    ∃ w a now t₁ tr t₂, r.mode = some w ∧ chosenAttr w = some a ∧
      ((m.before.driver.prepared r).iop (.acquire w)).Runs tr (.ret 0, .none, m.after.driver) ∧
      m.events = t₁ ++ (driverEvents tr ++ t₂) ∧
      m.after.cmd = (m.before.cmd.prepared r a).accepted w now ∧ m.after.threw = false := by
  obtain ⟨hop, hen, hres⟩ := ha
  obtain ⟨hrun, hthrew⟩ := move_set h hop
  have ht : m.after.threw = false := by
    rw [← Bool.not_eq_true, hthrew, hres]
    simp
  rw [hres] at hrun
  generalize hd' : m.after.driver = d' at hrun ⊢
  generalize hc' : m.after.cmd = c' at hrun ⊢
  generalize hev : m.events = ev at hrun ⊢
  cases hrun with
  | disabled ep x hdis => exact absurd hdis hen
  | started ep x w a now _ hmode hattr hsil hacq =>
    obtain ⟨tr, rfl, hi⟩ := hacq.runs
    exact ⟨w, a, now, _, tr, _, hmode, hattr, hi, by rw [← List.append_assoc], rfl, ht⟩

/-- A turn of a live command is a run of `acquireHandler`. -/
theorem move_turn (h : m.Valid Station.step) (hop : m.op = .acquire) (hl : m.before.live) :
    m.before.cmd.TurnRun m.before.driver m.events m.result m.after.cmd m.after.driver ∧
      (m.after.threw = true ↔ m.result ≠ .return) := by
  unfold Move.Valid at h
  rw [hop, Station.step, if_pos hl] at h
  obtain ⟨h, ht⟩ := leave_runs h
  exact ⟨turn_runs h, ht⟩

/-- The scheduler leaves a command alone that is not live. -/
theorem move_idle (h : m.Valid Station.step) (hop : m.op = .acquire) (hl : ¬m.before.live) :
    m.events = [] ∧ m.result = .return ∧ m.after = m.before := by
  unfold Move.Valid at h
  rw [hop, Station.step, if_neg hl] at h
  obtain ⟨he, h⟩ := h
  obtain ⟨hr, ha⟩ := Prod.mk.inj h
  exact ⟨he, hr.symm, ha.symm⟩

end LiberaDaq
