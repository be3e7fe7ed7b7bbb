import LiberaDaq.Command.ModeAgreement

/-!
# What an accepted request sets up

The parameters of an acquisition lie partly in the command object and partly in the driver, and
`setHandler` forwards each key under a condition of its own. `independence_contract` says for which
requests the acquisition is a function of the request: those that leave nothing to what an earlier
command set.
-/

namespace LiberaDaq

open Cspi Interaction Prog

/-! ## The acquisition that is set up -/

/-- The acquisition that a request sets up: the parameters that the driver takes for its calls of
the library, and those that the command takes for its turns. -/
structure SetUp where
  operation : Operation
  mode : Mode
  datasize : Word
  atomCount : Word
  ddOffset : BitVec 64
  trigger : Bool
  decimation : Word
  cmdMode : Word
  samples : Word
  loops : Word
  duration : Word
  deriving DecidableEq, Repr

/-- The acquisition that a station is set up for. -/
def Station.setUp (s : Station) : SetUp where
  operation := s.driver.cfg.operation
  mode := s.driver.cfg.mode
  datasize := s.driver.cfg.datasize
  atomCount := s.driver.cfg.atomCount
  ddOffset := s.driver.cfg.ddOffset
  trigger := s.driver.cfg.mask.hits wantTrigger
  decimation := s.driver.cfg.ddDecimation
  cmdMode := s.cmd.mode
  samples := s.cmd.samples
  loops := s.cmd.loops
  duration := s.cmd.acquireDuration

/-- What the next turn asks for: the attribute, the bytes that the command passes to `read` and the
atoms that `read` asks the library for. -/
def Station.asked (s : Station) : Option (Attr × Word × Word) :=
  (readAttr s.cmd.mode).map fun a => (a, s.cmd.bcount a, s.driver.readCount (s.cmd.bcount a))

/-- `setHandler` can accept the request: the command is not disabled and the mode has an
attribute. -/
def Request.Acceptable (r : Request) : Prop :=
  r.enable ≠ some 0 ∧ ∃ w a, r.mode = some w ∧ chosenAttr w = some a

/-- The request says everything: a positive number of samples, a positive offset, and a mode bit
from which the driver takes a kind. -/
def Request.Complete (r : Request) : Prop :=
  r.hasSamples ∧ r.hasOffset ∧ ∃ w, r.mode = some w ∧ ¬kindless w

/-- The acquisition does not depend on what came before: after two histories with this request as
the last one accepted, the same acquisition is set up, and all turns that follow ask for the
same. -/
def Request.Independent (r : Request) : Prop :=
  ∀ (s s₁ s₂ : Station) (ms₁ ms₂ : List StationMove) (m₁ m₂ : StationMove),
    History Station.step s (ms₁ ++ [m₁]) s₁ → History Station.step s (ms₂ ++ [m₂]) s₂ →
    Accepts m₁ r → Accepts m₂ r → s₁.setUp = s₂.setUp ∧
      ∀ ts₁ ts₂ s₁' s₂', History Station.step s₁ ts₁ s₁' → History Station.step s₂ ts₂ s₂' →
        (∀ m ∈ ts₁ ++ ts₂, m.op = .acquire) →
          ∀ m ∈ ts₁, ∀ m' ∈ ts₂, m.before.asked = m'.before.asked

variable {c c' : AcquireCmd} {d d' : Driver} {t : List UnitEvent} {e : Exit} {r : Request}
  {w : Word} {m : StationMove} {ms : List StationMove} {s s' : Station}

/-! ## What an accepted request makes of the parameters -/

/-- The acquisition that a request with the mode `w` sets up on a station. -/
def Request.setUp (r : Request) (w : Word) (s : Station) : SetUp where
  operation := if (acquireKind w).isSome then .acquire else .unknown
  mode := ((acquireKind w).map (·.1)).getD s.driver.cfg.mode
  datasize := ((acquireKind w).map (BitVec.ofNat 32 ·.2.size)).getD s.driver.cfg.datasize
  atomCount := if r.hasSamples then r.tsamples else s.driver.cfg.atomCount
  ddOffset := if r.hasOffset then r.toffset.signExtend 64 else s.driver.cfg.ddOffset
  trigger := hits w liberaIopModeTriggered
  decimation := if hits w liberaIopModeDecimated then 1 else 0
  cmdMode := w
  samples := if r.hasSamples then r.tsamples else s.cmd.samples
  loops := r.loops.getD 1
  duration := r.duration.getD 0

theorem hits_acquireFlags (w : Word) (cfg : LiberaConfig) :
    (acquireFlags w cfg).mask.hits wantTrigger = hits w liberaIopModeTriggered := by
  unfold acquireFlags
  cases hits w liberaIopModeTriggered with
  | true =>
    have h : wantTrigger.hits wantTrigger = true := by decide
    simp [Bitmask.hits_or, h]
  | false =>
    have h : (cfg.mask &&& ~~~wantTrigger) &&& wantTrigger = 0 := by
      rw [BitVec.and_assoc, BitVec.not_and_self]
      exact BitVec.and_zero
    simp [Bitmask.hits, h]

theorem prepared_cfg (d : Driver) (r : Request) : (d.prepared r).cfg.operation = .unknown ∧
    (d.prepared r).cfg.mode = d.cfg.mode ∧ (d.prepared r).cfg.datasize = d.cfg.datasize ∧
    (d.prepared r).cfg.atomCount = (if r.hasSamples then r.tsamples else d.cfg.atomCount) ∧
    (d.prepared r).cfg.ddOffset =
      if r.hasOffset then r.toffset.signExtend 64 else d.cfg.ddOffset := by
  unfold Driver.prepared Driver.taking
  cases r.hasSamples <;> cases r.hasOffset <;> exact ⟨rfl, rfl, rfl, rfl, rfl⟩

/-- **What an accepted request sets up.** -/
theorem accepts_setUp (hm : m.Valid Station.step) (hacc : Accepts m r) (hw : r.mode = some w) :
    m.after.setUp = r.setUp w m.before := by
  obtain ⟨w', a, now, t₁, tr, t₂, hw', -, hi, -, hcmd, -⟩ := accepts_runs hm hacc
  obtain rfl : w = w' := Option.some.inj (hw.symm.trans hw')
  have hcfg := (iop_acquire_zero hi).1
  obtain ⟨hop, hmode, hsize, hcount, hoff⟩ := prepared_cfg m.before.driver r
  obtain ⟨hsamples, hloops, hdur, -⟩ := prepared_cmd m.before.cmd r a
  obtain ⟨hcount', hoff', hmask, hdec⟩ := acquireConfig_rest w
    (m.before.driver.prepared r).cfg
  have hkind : m.after.driver.cfg.operation =
        (if (acquireKind w).isSome then .acquire else .unknown) ∧
      m.after.driver.cfg.mode = ((acquireKind w).map (·.1)).getD m.before.driver.cfg.mode ∧
      m.after.driver.cfg.datasize =
        ((acquireKind w).map (BitVec.ofNat 32 ·.2.size)).getD m.before.driver.cfg.datasize := by
    rw [hcfg]
    cases hk : acquireKind w with
    | none =>
      rw [acquireConfig_of_none hk]
      exact ⟨hop, hmode, hsize⟩
    | some k => exact acquireConfig_hasKind _ hk
  have htrigger : m.after.driver.cfg.mask.hits wantTrigger = hits w liberaIopModeTriggered := by
    rw [hcfg, hmask, hits_acquireFlags]
  have hdec' :
      m.after.driver.cfg.ddDecimation = if hits w liberaIopModeDecimated then 1 else 0 := by
    rw [hcfg, hdec]
    rfl
  have hsamples' :
      m.after.cmd.samples = if r.hasSamples then r.tsamples else m.before.cmd.samples := by
    rw [hcmd]
    exact hsamples
  have hloops' : m.after.cmd.loops = r.loops.getD 1 := by
    rw [hcmd]
    exact hloops
  have hdur' : m.after.cmd.acquireDuration = r.duration.getD 0 := by
    rw [hcmd]
    exact hdur
  have hmode' : m.after.cmd.mode = w := by
    rw [hcmd]
    rfl
  have hcount'' : m.after.driver.cfg.atomCount =
      if r.hasSamples then r.tsamples else m.before.driver.cfg.atomCount := by
    rw [hcfg, hcount', hcount]
  have hoff'' : m.after.driver.cfg.ddOffset =
      if r.hasOffset then r.toffset.signExtend 64 else m.before.driver.cfg.ddOffset := by
    rw [hcfg, hoff', hoff]
  simp only [Station.setUp, Request.setUp, hkind, htrigger, hdec', hsamples', hloops', hdur',
    hmode',
    hcount'', hoff'']

/-- A complete request leaves nothing to the station. -/
theorem Request.Complete.setUp_eq (h : r.Complete) (hw : r.mode = some w) (s s' : Station) :
    r.setUp w s = r.setUp w s' := by
  obtain ⟨hs, ho, w', hw', hk⟩ := h
  obtain rfl : w = w' := Option.some.inj (hw.symm.trans hw')
  rw [← acquireKind_eq_none] at hk
  obtain ⟨k, hk⟩ := Option.ne_none_iff_exists'.1 hk
  simp [Request.setUp, hs, ho, hk]

/-! ## The turns that follow -/

/-- A turn leaves these members as they are, and a driver that does not acquire does not begin to. -/
structure AcquireCmd.Keeps (c : AcquireCmd) (d : Driver) (c' : AcquireCmd) (d' : Driver) : Prop where
  mode : c'.mode = c.mode
  samples : c'.samples = c.samples
  size : c'.out.size = c.out.size
  cspiMode : d'.cfg.mode = d.cfg.mode
  datasize : d'.cfg.datasize = d.cfg.datasize
  atomCount : d'.cfg.atomCount = d.cfg.atomCount
  operation : d'.cfg.operation = .acquire → d.cfg.operation = .acquire

theorem AcquireCmd.Keeps.trans {c₁ c₂ c₃ : AcquireCmd} {d₁ d₂ d₃ : Driver}
    (h : c₁.Keeps d₁ c₂ d₂) (h' : c₂.Keeps d₂ c₃ d₃) : c₁.Keeps d₁ c₃ d₃ where
  mode := h'.mode.trans h.mode
  samples := h'.samples.trans h.samples
  size := h'.size.trans h.size
  cspiMode := h'.cspiMode.trans h.cspiMode
  datasize := h'.datasize.trans h.datasize
  atomCount := h'.atomCount.trans h.atomCount
  operation := fun hop => h.operation (h'.operation hop)

theorem AcquireCmd.keeps_countDown (c : AcquireCmd) (d : Driver) : c.Keeps d c.countDown d := by
  unfold AcquireCmd.countDown
  split <;> exact ⟨rfl, rfl, rfl, rfl, rfl, rfl, id⟩

theorem AcquireCmd.keeps_stamped (c : AcquireCmd) (d : Driver) (x : ℤ × Timestamp) :
    c.Keeps d (c.stamped x) d := by
  obtain ⟨mt, st, h⟩ := c.stamped_eq x
  rw [h]
  exact ⟨rfl, rfl, rfl, rfl, rfl, rfl, id⟩

theorem AcquireCmd.keeps_took (c : AcquireCmd) (d : Driver) (a : Attr) (ptr : Bool)
    (ro : ReadOutcome) : c.Keeps d (c.took a ptr ro) d := by
  have hsize : (c.received a ptr ro).size = c.out.size := by cases ptr <;> rfl
  unfold AcquireCmd.took
  by_cases hret : 0 ≤ ro.ret
  · rw [if_pos hret]
    exact ⟨rfl, rfl, hsize, rfl, rfl, rfl, id⟩
  · rw [if_neg hret]
    exact ⟨rfl, rfl, hsize, rfl, rfl, rfl, id⟩

theorem AcquireCmd.FinishRun.keeps (h : c.FinishRun d t e c' d') : c.Keeps d c' d' := by
  cases h with
  | ended => exact ⟨rfl, rfl, rfl, rfl, rfl, rfl, by rintro ⟨⟩⟩
  | failed => exact (c.keeps_countDown d).trans ⟨rfl, rfl, rfl, rfl, rfl, rfl, by rintro ⟨⟩⟩
  | goesOn => exact c.keeps_countDown d

theorem AcquireCmd.IterateRun.keeps (h : c.IterateRun d t e c' d') : c.Keeps d c' d' := by
  cases h with
  | missing ep x => exact (c.keeps_stamped d x).trans ⟨rfl, rfl, rfl, rfl, rfl, rfl, id⟩
  | unread ep x hattr hfin => exact (c.keeps_stamped d x).trans hfin.keeps
  | read ep x a ptr hattr hptr hn hread hfin =>
    exact ((c.keeps_stamped d x).trans (AcquireCmd.keeps_took _ d a ptr _)).trans hfin.keeps

theorem AcquireCmd.TurnRun.keeps (h : c.TurnRun d t e c' d') : c.Keeps d c' d' := by
  cases h with
  | expired => exact ⟨rfl, rfl, rfl, rfl, rfl, rfl, id⟩
  | timed now hdur hexp hit => exact hit.keeps
  | untimed hdur hit => exact hit.keeps

/-- What a station asks for depends on these four members only. -/
theorem asked_congr (hmode : s'.cmd.mode = s.cmd.mode) (hsamples : s'.cmd.samples = s.cmd.samples)
    (hsize : s'.driver.cfg.datasize = s.driver.cfg.datasize)
    (hcount : s'.driver.cfg.atomCount = s.driver.cfg.atomCount) : s'.asked = s.asked := by
  have hbytes : ∀ a, s'.cmd.bcount a = s.cmd.bcount a := fun a => by
    rw [AcquireCmd.bcount, AcquireCmd.bcount, hsamples]
  have hread : s'.driver.readCount = s.driver.readCount := by
    funext n
    rw [Driver.readCount, Driver.readCount, hsize, hcount]
  rw [Station.asked, Station.asked, hmode, hread]
  simp only [hbytes]

/-- A turn leaves what the next one asks for as it is. -/
theorem asked_move (hm : m.Valid Station.step) (hop : m.op = .acquire) :
    m.after.asked = m.before.asked := by
  by_cases hl : m.before.live
  · have hkeeps := (move_turn hm hop hl).1.keeps
    exact asked_congr hkeeps.mode hkeeps.samples hkeeps.datasize hkeeps.atomCount
  · rw [(move_idle hm hop hl).2.2]

/-- All turns of a history ask for the same. -/
theorem asked_history (h : History Station.step s ms s') (hops : ∀ m ∈ ms, m.op = .acquire) :
    ∀ m ∈ ms, m.before.asked = s.asked := by
  have hrule := History.rule (I := fun s' => s'.asked = s.asked) (G := fun m => m.op = .acquire)
    (P := fun m => m.before.asked = s.asked) ?_ h rfl hops
  · exact hrule.1
  · intro m hm hI hop
    exact ⟨hI, (asked_move hm hop).trans hI⟩

theorem asked_of_setUp (h : s.setUp = s'.setUp) : s.asked = s'.asked :=
  asked_congr (congrArg SetUp.cmdMode h) (congrArg SetUp.samples h) (congrArg SetUp.datasize h)
    (congrArg SetUp.atomCount h)

/-- A complete request is independent of what came before. -/
theorem Request.Complete.independent (h : r.Complete) : r.Independent := by
  intro s s₁ s₂ ms₁ ms₂ m₁ m₂ h₁ h₂ ha₁ ha₂
  obtain ⟨w, hw, -⟩ := h.2.2
  have hlast : ∀ {s s' : Station} {ms : List StationMove} {m : StationMove},
      History Station.step s (ms ++ [m]) s' → Accepts m r → s'.setUp = r.setUp w m.before := by
    intro s s' ms m hh ha
    obtain ⟨hv, rfl⟩ := hh.last
    exact accepts_setUp hv ha hw
  have hset : s₁.setUp = s₂.setUp := by
    rw [hlast h₁ ha₁, hlast h₂ ha₂, h.setUp_eq hw m₁.before m₂.before]
  refine ⟨hset, fun ts₁ ts₂ s₁' s₂' ht₁ ht₂ hops m hm m' hm' => ?_⟩
  rw [asked_history ht₁ (fun m hm => hops m (List.mem_append_left _ hm)) m hm,
    asked_history ht₂ (fun m hm => hops m (List.mem_append_right _ hm)) m' hm']
  exact asked_of_setUp hset

/-- The event of a call of `cspi_read`. -/
abbrev unitRead (h : Handle) (buffer : Buffer) (n : Word) (x : ReadResult) : UnitEvent :=
  leftEvent (cspiEvent (.read h buffer n) x)

section

variable {h : Handle} {buffer : Buffer} {n : Word} {x : ReadResult}

theorem AcquireCmd.FinishRun.no_read (hf : c.FinishRun d t e c' d') :
    unitRead h buffer n x ∉ t := by
  intro hm
  cases hf with
  | goesOn => cases hm
  | _ =>
    rcases List.mem_cons.1 hm with hm | hm
    · cases leftEvent_injective hm
    · cases leftEvent_injective (List.mem_singleton.1 hm)

theorem no_read_ts {ep : EnvParams} {y : ℤ × Timestamp} :
    unitRead h buffer n x ∉ d.tsEvents ep y := by
  intro hm
  rcases List.mem_cons.1 hm with hm | hm
  · cases leftEvent_injective hm
  · cases leftEvent_injective (List.mem_singleton.1 hm)

/-- The number of atoms that `read` asks the library for. -/
theorem read_asks {b : Buffer} {addr : ℤ} {bytes : Word} {tr : List DrvEvent} {ro : ReadOutcome}
    (hr : d.ReadRun b addr bytes tr ro) (he : cspiEvent (.read h buffer n) x ∈ tr) :
    n = d.readCount bytes := by
  have hdata : ∀ {tr ro}, d.DataRun b addr bytes tr ro →
      cspiEvent (.read h buffer n) x ∈ tr → n = d.readCount bytes := by
    rintro tr ro (⟨rc, data, -⟩ | - | ⟨rc, -⟩ | ⟨y, -⟩) hm
    · simp at hm
    · simp at hm
    · simp at hm
    · rcases List.mem_cons.1 hm with hm | hm
      · cases hm
      · cases List.mem_singleton.1 hm
        rfl
  rcases hr with - | ⟨ws, w, -⟩ | ⟨ws, w, -, -, -, -, hd⟩ | ⟨-, -, hd⟩
  · simp at he
  · simp at he
  · rcases List.mem_cons.1 he with he | he
    · cases he
    · exact hdata hd he
  · exact hdata hd he

theorem AcquireCmd.IterateRun.asks (hi : c.IterateRun d t e c' d')
    (he : unitRead h buffer n x ∈ t) :
    ∃ a, readAttr c.mode = some a ∧ n = d.readCount (c.bcount a) := by
  cases hi with
  | missing ep y =>
    rcases List.mem_append.1 he with he | he
    · exact absurd he no_read_ts
    · cases List.mem_singleton.1 he
  | unread ep y hattr hfin =>
    rcases List.mem_append.1 he with he | he
    · exact absurd he no_read_ts
    · exact absurd he hfin.no_read
  | read ep y a ptr hattr hptr hn hread hfin =>
    rcases List.mem_append.1 he with he | he
    · exact absurd he no_read_ts
    · rcases List.mem_cons.1 he with he | he
      · cases he
      · rcases List.mem_append.1 he with he | he
        · obtain ⟨e', he', heq⟩ := List.mem_map.1 he
          obtain rfl : e' = cspiEvent (.read h buffer n) x := leftEvent_injective heq
          exact ⟨a, hattr, read_asks hread he'⟩
        · exact absurd he hfin.no_read

theorem AcquireCmd.TurnRun.asks (ht : c.TurnRun d t e c' d') (he : unitRead h buffer n x ∈ t) :
    ∃ a, readAttr c.mode = some a ∧ n = d.readCount (c.bcount a) := by
  cases ht with
  | expired => cases List.mem_singleton.1 he
  | timed now hdur hexp hit =>
    rcases List.mem_cons.1 he with he | he
    · cases he
    · exact hit.asks he
  | untimed hdur hit => exact hit.asks he

/-- The reads of a turn are those that the station asks for. -/
theorem turn_asks (hm : m.Valid Station.step) (hop : m.op = .acquire) (hl : m.before.live)
    (he : unitRead h buffer n x ∈ m.events) : ∃ a bytes, m.before.asked = some (a, bytes, n) := by
  have hasks : ∃ a, readAttr m.before.cmd.mode = some a ∧
      n = m.before.driver.readCount (m.before.cmd.bcount a) := (move_turn hm hop hl).1.asks he
  obtain ⟨a, hattr, hn⟩ := hasks
  exact ⟨a, m.before.cmd.bcount a, by simp [Station.asked, hattr, hn]⟩

end

/-! ## Requests that leave something open -/

/-- The answers to the command when nothing goes wrong. -/
def CalmCmd : (c : CmdCall) → CmdAns c → Prop
  | .inl (.iop .stop), x | .inl (.iop (.setSamples _)), x | .inl (.iop (.setOffset _)), x
  | .inl (.iop (.acquire _)), x => x.1 = 0
  | .inr .getAccessor, x | .inr (.resize _ _), x => x = true
  | .inr .now, _ => True
  | _, _ => False

/-- The answers of the calm environment. -/
def CalmDrv (c : DrvCall) (x : DrvAns c) : Prop := calmDrv c () = some (x, ())

def CalmUnit (c : UnitCall) (x : UnitAns c) : Prop := calm c () = some (x, ())

@[simp] theorem calmDrv_cspi {c : CspiCall} {x : CspiAns c} :
    CalmDrv (.inl c) x ↔ x = calmCspi c := by
  simp [CalmDrv, calmDrv, eq_comm]

@[simp] theorem calmDrv_uninitEnv {x : EnvParams} :
    CalmDrv (.inr .uninitEnv) x ↔ x = zeroEnv := by
  simp [CalmDrv, calmDrv, calmHost, eq_comm]

theorem iopTail_calm (d : Driver) : d.iopTail.wp CalmDrv fun x => x.1 = 0 := by
  unfold Driver.iopTail
  split
  · simp [calmCspi]
  · simp

theorem finish_calm (d : Driver) (out : IopOut) :
    (d.finish out).wp CalmDrv fun x => x.1.code = 0 :=
  Prog.wp_bind.2 (Prog.wp_mono (iopTail_calm d) fun _ h => h)

/-- In the calm environment the opcodes of `setHandler` return `0`. -/
theorem iop_calm (d : Driver) {q : IopRequest} (h : ∃ x, CalmCmd (.inl (.iop q)) x) :
    (d.iop q).wp CalmDrv fun x => x.1.code = 0 := by
  unfold Driver.iop
  simp only [Prog.perform_bind, Prog.wp_call, calmDrv_uninitEnv, exists_eq, true_and, forall_eq]
  cases q with
  | stop => simpa using finish_calm _ _
  | setSamples n => exact finish_calm _ _
  | setOffset n => exact finish_calm _ _
  | acquire w =>
    refine Prog.wp_bind.2 ?_
    have hfin : ∀ d' : Driver, (d'.finish .none).wp CalmDrv fun x => x.1.code = 0 :=
      fun d' => finish_calm d' .none
    unfold Driver.acquire
    split
    · exact hfin _
    · simp only [Prog.perform_bind, Prog.wp_call, Prog.wp_pure, calmDrv_cspi, exists_eq, forall_eq,
        true_and]
      exact hfin _
  | _ =>
    obtain ⟨x, hx⟩ := h
    exact hx.elim

theorem unit_calm (c : CmdCall) (d : Driver) (h : ∃ x, CalmCmd c x) :
    (unitImpl c d).wp CalmUnit fun x => CalmCmd c x.1 ∧ True := by
  obtain c | c := c
  · cases c with
    | iop q =>
      refine Prog.wp_liftLeft (Prog.wp_bind.2 (Prog.wp_mono (iop_calm d h) fun x hx =>
        ⟨?_, trivial⟩))
      cases q <;> first | exact hx | exact (h.elim fun _ h => h).elim
    | read => exact (h.elim fun _ h => h).elim
  · refine ⟨?_, fun x hx => ⟨?_, trivial⟩⟩
    · cases c with
      | getAccessor => exact ⟨true, rfl⟩
      | resize => exact ⟨true, rfl⟩
      | now => exact ⟨0, rfl⟩
      | _ => exact (h.elim fun _ h => h).elim
    · cases c with
      | getAccessor => exact (Prod.mk.inj (Option.some.inj hx)).1.symm
      | resize => exact (Prod.mk.inj (Option.some.inj hx)).1.symm
      | now => trivial
      | _ => exact (h.elim fun _ h => h).elim

theorem resizeAll_calm (size : ℕ) (as : List Attr) (c : AcquireCmd) :
    (resizeAll size as c).wp CalmCmd fun x => x.1 = true := by
  induction as generalizing c with
  | nil => rfl
  | cons a as ih =>
    refine ⟨⟨true, rfl⟩, fun x hx => ?_⟩
    obtain rfl : x = true := hx
    exact ih _

theorem sizeAttr_calm (c : AcquireCmd) (a : Attr) (n : Word) :
    (c.sizeAttr a n).wp CalmCmd fun x => x.1 = true := by
  unfold AcquireCmd.sizeAttr
  split
  · refine wp_bind.2 (wp_mono (resizeAll_calm _ _ _) fun x hx => ?_)
    obtain ⟨ok, c'⟩ := x
    obtain rfl : ok = true := hx
    exact ⟨⟨(0, .none), rfl⟩, fun _ _ => rfl⟩
  · rfl

theorem start_calm (c : AcquireCmd) (r : Request) (w : Word) :
    (c.start r w).wp CalmCmd fun x => x.1 = .return := by
  have hrest : ∀ c' : AcquireCmd, (do
      let x ← driver (.iop (.acquire w))
      if x.1 ≠ 0 then Pure.pure (.throw x.1 "Cannot start acquire", c'.end)
      else c'.started w : CmdProg (Exit × AcquireCmd)).wp CalmCmd fun x => x.1 = .return := by
    intro c'
    refine ⟨⟨(0, .none), rfl⟩, fun x hx => ?_⟩
    obtain ⟨rc, out⟩ := x
    obtain rfl : rc = 0 := hx
    exact ⟨⟨0, trivial⟩, fun _ _ => rfl⟩
  refine wp_bind.2 ?_
  unfold AcquireCmd.seek
  split
  · exact ⟨⟨(0, .none), rfl⟩, fun _ _ => hrest _⟩
  · exact hrest _

/-- In the calm environment `setHandler` accepts what it can accept. -/
theorem setHandler_calm (c : AcquireCmd) (h : r.Acceptable) :
    (c.setHandler r).wp CalmCmd fun x => x.1 = .return := by
  obtain ⟨hen, w, a, hmode, hattr⟩ := h
  refine ⟨⟨true, rfl⟩, fun x hx => ?_⟩
  obtain rfl : x = true := hx
  refine ⟨⟨(0, .none), rfl⟩, fun x hx => ?_⟩
  obtain ⟨rc, out⟩ := x
  obtain rfl : rc = 0 := hx
  change (c.reset.request r).wp CalmCmd fun x => x.1 = .return
  unfold AcquireCmd.request
  rw [if_neg hen, hmode]
  dsimp only
  unfold AcquireCmd.configure
  refine wp_bind.2 (wp_mono (resizeAll_calm _ _ _) fun x hx => ?_)
  obtain ⟨ok, c'⟩ := x
  obtain rfl : ok = true := hx
  dsimp only
  rw [if_pos rfl, hattr]
  refine wp_bind.2 (wp_mono (sizeAttr_calm _ _ _) fun x hx => ?_)
  obtain ⟨ok, c'⟩ := x
  obtain rfl : ok = true := hx
  exact start_calm _ _ _

/-- From every station there is a move that accepts what `setHandler` can accept. -/
theorem exists_accepts (s : Station) (h : r.Acceptable) :
    ∃ m : StationMove, m.Valid Station.step ∧ m.before = s ∧ Accepts m r := by
  have hwp := wp_interp (I := fun _ => True) (fun c d hc _ => unit_calm c d hc)
    (setHandler_calm s.cmd h) (s := s.driver) trivial
  obtain ⟨t, x, hrun, -, hx, -⟩ := exists_runs_of_wp hwp
  refine ⟨⟨.set r, s, t, x.1.1, (Station.leave x).2⟩, ?_, rfl, rfl, h.1, hx⟩
  exact runs_bind_pure.2 ⟨x, hrun, rfl⟩

/-- Two requests that set up different acquisitions. -/
def ddRequest : Request := { mode := some 1, samples := some 1, offset := some 1 }

def saRequest : Request := { mode := some 2, samples := some 2, offset := some 2 }

theorem ddRequest_move : ∃ m, execAll calm Station.step [.set ddRequest] calmStation () =
    some [m] ∧ m.after.driver.cfg.mode = .dd ∧ m.after.driver.cfg.ddOffset = 1 ∧
      m.after.cmd.samples = 1 :=
  ⟨_, rfl, rfl, rfl, rfl⟩

theorem saRequest_move : ∃ m, execAll calm Station.step [.set saRequest] calmStation () =
    some [m] ∧ m.after.driver.cfg.mode = .sa ∧ m.after.driver.cfg.ddOffset = 2 ∧
      m.after.cmd.samples = 2 :=
  ⟨_, rfl, rfl, rfl, rfl⟩

/-- After these two, a request that leaves something open sets up different acquisitions. -/
theorem setUp_ne (hw : r.mode = some w) (h : ¬r.Complete) {s s' : Station}
    (hmode : s.driver.cfg.mode = .dd) (hmode' : s'.driver.cfg.mode = .sa)
    (hoff : s.driver.cfg.ddOffset = 1) (hoff' : s'.driver.cfg.ddOffset = 2)
    (hsamples : s.cmd.samples = 1) (hsamples' : s'.cmd.samples = 2) :
    r.setUp w s ≠ r.setUp w s' := by
  intro he
  have hm := congrArg SetUp.mode he
  have ho := congrArg SetUp.ddOffset he
  have hs := congrArg SetUp.samples he
  simp only [Request.setUp, hmode, hmode', hoff, hoff', hsamples, hsamples'] at hm ho hs
  refine h ⟨?_, ?_, w, hw, ?_⟩
  · by_contra hn
    rw [if_neg hn, if_neg hn] at hs
    exact absurd hs (by decide)
  · by_contra hn
    rw [if_neg hn, if_neg hn] at ho
    exact absurd ho (by decide)
  · rw [← acquireKind_eq_none]
    intro hk
    rw [hk] at hm
    cases hm

/-- A request that leaves something open depends on what came before. -/
theorem Request.Acceptable.not_independent (ha : r.Acceptable) (h : ¬r.Complete) :
    ¬r.Independent := by
  intro hind
  obtain ⟨-, w, a, hw, -⟩ := id ha
  obtain ⟨m, hms, hmode, hoff, hsamples⟩ := ddRequest_move
  obtain ⟨m', hms', hmode', hoff', hsamples'⟩ := saRequest_move
  obtain ⟨s₁, hh⟩ := History.of_execAll hms
  obtain ⟨s₂, hh'⟩ := History.of_execAll hms'
  have hone : History Station.step calmStation ([] ++ [m]) s₁ := hh
  have hone' : History Station.step calmStation ([] ++ [m']) s₂ := hh'
  obtain ⟨-, rfl⟩ := hone.last
  obtain ⟨-, rfl⟩ := hone'.last
  obtain ⟨n, hn, hbefore, hacc⟩ := exists_accepts m.after ha
  obtain ⟨n', hn', hbefore', hacc'⟩ := exists_accepts m'.after ha
  have hlast : History Station.step m.after [n] n.after := hbefore ▸ History.single hn
  have hlast' : History Station.step m'.after [n'] n'.after := hbefore' ▸ History.single hn'
  have hset := (hind _ _ _ [m] [m'] n n' (hh.append hlast) (hh'.append hlast') hacc hacc').1
  rw [accepts_setUp hn hacc hw, accepts_setUp hn' hacc' hw, hbefore, hbefore'] at hset
  exact setUp_ne hw h hmode hmode' hoff hoff' hsamples hsamples' hset

/-- **Acquire commands do not depend on earlier ones** exactly when the request says everything. -/
theorem independence_contract (h : r.Acceptable) : r.Independent ↔ r.Complete :=
  ⟨fun hind => by_contra fun hn => h.not_independent hn hind, Request.Complete.independent⟩

/-- A request for `DD` without a number of samples. -/
def sampleless : Request := { mode := some 1, offset := some 1 }

theorem sampleless_acceptable : sampleless.Acceptable := ⟨by decide, 1, .dd, rfl, by decide⟩

/-- An accepted request for `DD` without a number of samples takes over that of an earlier one. -/
theorem samples_left_over : ¬∀ r : Request, r.Acceptable → r.Independent := by
  intro h
  refine sampleless_acceptable.not_independent ?_ (h _ sampleless_acceptable)
  intro hc
  exact absurd hc.1 (by decide)

/-- The contract for a request that says everything. -/
theorem independence_contract_dd : ddRequest.Independent ↔ ddRequest.Complete :=
  independence_contract ⟨by decide, 1, .dd, rfl, by decide⟩

end LiberaDaq
