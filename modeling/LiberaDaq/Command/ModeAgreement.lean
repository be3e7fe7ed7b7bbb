import LiberaDaq.Command.Setup
import LiberaDaq.Driver.Kinds

/-!
# The kind of an acquisition in the command and in the driver

`setHandler` sizes the attribute of the first mode bit it knows, and ACQUIRE takes the kind of the
last one, of another list of bits. `mode_contract` says for which mode words the two are the same.
-/

namespace LiberaDaq

open Cspi Interaction

/-- The CSPI mode that fills an attribute. -/
def Attr.mode : Attr → Mode
  | .dd => .dd
  | .sa => .sa
  | .adcCw => .adcCw
  | .adcSp => .adcSp
  | .adcAvg | .avg => .average

/-- The mode words whose attribute is also what the driver acquires: of `DD`, `SA`, `PM` and `ADC`
nothing but `DD` or nothing but `SA`; or, with neither of these two, `ADC` with exactly one of
`CONTINUOUS` and `SINGLEPASS`. -/
def agreesOn (w : Word) : Bool :=
  if hits w liberaIopModeDd then
    !hits w liberaIopModeSa && !hits w liberaIopModePm && !hits w liberaIopModeAdc
  else if hits w liberaIopModeSa then !hits w liberaIopModePm && !hits w liberaIopModeAdc
  else hits w liberaIopModeAdc &&
    (hits w liberaIopModeContinuous != hits w liberaIopModeSinglepass)

/-- The mode word has none of the bits from which the driver takes a kind. -/
def kindless (w : Word) : Bool :=
  !hits w liberaIopModeDd && !hits w liberaIopModeSa && !hits w liberaIopModePm &&
    !hits w liberaIopModeAdc

/-- The call gets the latest value. -/
def isGet : DrvCall → Bool
  | .inl (.get _ _) => true
  | _ => false

/-- The call seeks or reads in the history buffer. -/
def isStream : DrvCall → Bool
  | .inl (.seek _ _ _) | .inl (.read _ _ _) => true
  | _ => false

/-- The driver acquires what an attribute is for: its CSPI mode and atoms, on a connection that was
configured and opened in that mode, and every read goes the way of that mode. -/
structure Driver.Agrees (d : Driver) (a : Attr) (tr : List DrvEvent) : Prop where
  kind : d.cfg.HasKind (a.mode, a.kind)
  connected : ConnectedIn d a.mode tr
  path : ∀ buffer addr n t r, (d.read buffer addr n).Runs t r →
    ∀ e ∈ t, (isGet e.1 → a = .sa) ∧ (isStream e.1 → a ≠ .sa)

/-- After a move that accepted a request, the command reads into the attribute and the driver
acquires what it is for. -/
structure AgreesAfter (m : StationMove) (a : Attr) : Prop where
  reads : readAttr m.after.cmd.mode = some a
  driver : ∃ t₁ tr t₂, m.events = t₁ ++ (driverEvents tr ++ t₂) ∧ m.after.driver.Agrees a tr

variable {w : Word} {a : Attr} {d d' : Driver} {tr : List DrvEvent}

/-! ## The two chains -/

theorem acquireKind_eq_none : acquireKind w = none ↔ kindless w := by
  unfold acquireKind kindless
  generalize hits w liberaIopModeDd = dd
  generalize hits w liberaIopModeSa = sa
  generalize hits w liberaIopModePm = pm
  generalize hits w liberaIopModeAdc = adc
  generalize hits w liberaIopModeContinuous = cw
  generalize hits w liberaIopModeSinglepass = sp
  revert dd sa pm adc cw sp
  decide

/-- The two chains select the same on the words of `agreesOn`, and on these only. -/
theorem acquireKind_eq_iff (h : chosenAttr w = some a) :
    acquireKind w = some (a.mode, a.kind) ↔ agreesOn w := by
  revert h
  unfold chosenAttr acquireKind agreesOn
  generalize hits w liberaIopModeDd = dd
  generalize hits w liberaIopModeSa = sa
  generalize hits w liberaIopModePm = pm
  generalize hits w liberaIopModeAdc = adc
  generalize hits w liberaIopModeContinuous = cw
  generalize hits w liberaIopModeSinglepass = sp
  generalize hits w liberaIopModeAvg = avg
  cases a <;> revert dd sa pm adc cw sp avg <;> decide

/-- Where the chains agree, `acquireHandler` reads into the attribute that `setHandler` sized. -/
theorem readAttr_of_agreesOn (h : chosenAttr w = some a) (hw : agreesOn w) :
    readAttr w = some a := by
  revert h hw
  unfold chosenAttr readAttr agreesOn
  generalize hits w liberaIopModeDd = dd
  generalize hits w liberaIopModeSa = sa
  generalize hits w liberaIopModePm = pm
  generalize hits w liberaIopModeAdc = adc
  generalize hits w liberaIopModeContinuous = cw
  generalize hits w liberaIopModeSinglepass = sp
  generalize hits w liberaIopModeAvg = avg
  cases a <;> revert dd sa pm adc cw sp avg <;> decide

/-! ## The driver after ACQUIRE -/

/-- A read goes the way of the mode of the configuration. -/
theorem read_path {buffer : Buffer} {addr : ℤ} {n : Word} {r : ReadOutcome}
    (h : (d.read buffer addr n).Runs tr r) :
    ∀ e ∈ tr, (isGet e.1 → d.cfg.mode = .sa) ∧ (isStream e.1 → d.cfg.mode ≠ .sa) := by
  have hdata : ∀ {tr r}, d.DataRun buffer addr n tr r →
      ∀ e ∈ tr, (isGet e.1 → d.cfg.mode = .sa) ∧ (isStream e.1 → d.cfg.mode ≠ .sa) := by
    rintro tr r (⟨rc, data, hm⟩ | ⟨hm, -⟩ | ⟨rc, hm, -, -⟩ | ⟨x, hm, -⟩) <;>
      simp [hm, isGet, isStream]
  rcases read_runs.1 h with - | ⟨ws, w, -⟩ | ⟨ws, w, -, -, -, -, h⟩ | ⟨-, -, h⟩
  · simp
  · simp [isGet, isStream]
  · exact List.forall_mem_cons.2 ⟨by simp [isGet, isStream], hdata h⟩
  · exact hdata h

theorem Attr.mode_eq_sa : a.mode = .sa ↔ a = .sa := by cases a <;> decide

/-- The kind of the configuration decides whether the driver agrees. -/
theorem agrees_iff_hasKind (h : d.cfg.operation = .acquire → ConnectedIn d d.cfg.mode tr) :
    d.Agrees a tr ↔ d.cfg.HasKind (a.mode, a.kind) := by
  refine ⟨fun ha => ha.kind, fun hk => ⟨hk, ?_, ?_⟩⟩
  · obtain ⟨hop, hmode, -⟩ := hk
    rw [← show d.cfg.mode = a.mode from hmode]
    exact h hop
  · intro buffer addr n t r hr e he
    have hmode : d.cfg.mode = a.mode := hk.2.1
    rw [Ne, ← Attr.mode_eq_sa, ← hmode]
    exact read_path hr e he

/-- The kinds that ACQUIRE takes. -/
def acquireKinds : List (Mode × AtomKind) :=
  [(.adcSp, .adcSp), (.adcCw, .adcCw), (.adc, .adc), (.pm, .dd), (.sa, .sa), (.dd, .dd)]

theorem mem_acquireKinds {k : Mode × AtomKind} (h : acquireKind w = some k) :
    k ∈ acquireKinds := by
  unfold acquireKind at h
  split_ifs at h <;> obtain rfl := Option.some.inj h <;> simp [acquireKinds]

/-- The CSPI mode tells the kinds apart that ACQUIRE takes. -/
theorem acquireKind_of_mode {k : Mode × AtomKind} (h : acquireKind w = some k)
    (hk : k.1 = a.mode) : k = (a.mode, a.kind) := by
  have hall : ∀ k ∈ acquireKinds, k.1 = a.mode → k = (a.mode, a.kind) := by
    cases a <;> decide
  exact hall k (mem_acquireKinds h) hk

/-- When a successful ACQUIRE leaves a driver that acquires what the attribute is for. -/
theorem acquire_agrees_iff {out : IopOut} (ha : chosenAttr w = some a)
    (h : (d.iop (.acquire w)).Runs tr (.ret 0, out, d')) :
    d'.Agrees a tr ↔ agreesOn w ∨ kindless w ∧ d.cfg.HasKind (a.mode, a.kind) := by
  obtain ⟨hcfg, hconn⟩ := iop_acquire_zero h
  rw [agrees_iff_hasKind hconn, hcfg, ← acquireKind_eq_iff ha, ← acquireKind_eq_none]
  cases hk : acquireKind w with
  | none =>
    rw [acquireConfig_of_none hk]
    simp [LiberaConfig.HasKind, acquireFlags]
  | some k =>
    have hkind := acquireConfig_hasKind d.cfg hk
    simp only [reduceCtorEq, false_and, or_false, Option.some.injEq]
    refine ⟨fun h => ?_, fun h => h ▸ hkind⟩
    exact acquireKind_of_mode hk (hkind.2.1.symm.trans h.2.1)

/-- When an accepted request leaves the command and the driver with the same kind. -/
theorem accepts_agrees_iff {m : StationMove} {r : Request} (hm : m.Valid Station.step)
    (hacc : Accepts m r) (hw : r.mode = some w) (ha : chosenAttr w = some a) :
    AgreesAfter m a ↔ agreesOn w := by
  obtain ⟨w', a', now, t₁, tr, t₂, hw', ha', hi, hev, hcmd, -⟩ := accepts_runs hm hacc
  obtain rfl : w = w' := Option.some.inj (hw.symm.trans hw')
  have hmode : m.after.cmd.mode = w := by rw [hcmd]; rfl
  have hstopped : ¬(m.before.driver.prepared r).cfg.HasKind (a.mode, a.kind) := by
    have hop : (m.before.driver.prepared r).cfg.operation = .unknown := by
      unfold Driver.prepared Driver.taking
      split <;> split <;> rfl
    rintro ⟨hacq, -⟩
    rw [hop] at hacq
    cases hacq
  have hiff := acquire_agrees_iff ha hi
  rw [or_iff_left fun h => hstopped h.2] at hiff
  refine ⟨fun h => ?_, fun h => ⟨?_, t₁, tr, t₂, hev, hiff.2 h⟩⟩
  · obtain ⟨-, tr', -, -, hagree⟩ := h.driver
    rw [← hiff, agrees_iff_hasKind (iop_acquire_zero hi).2]
    exact hagree.kind
  · rw [hmode]
    exact readAttr_of_agreesOn ha h

/-- **The command and the driver agree on the kind of an acquisition** exactly on the mode words of
`agreesOn`: for every request that is accepted, and for every ACQUIRE that returns `0`, where a word
from which the driver takes no kind leaves that of an acquisition which was not stopped. -/
theorem mode_contract (d d' : Driver) (w : Word) (a : Attr) (tr : List DrvEvent) (out : IopOut)
    (s s' : Station) (ms : List StationMove) :
    (chosenAttr w = some a → (d.iop (.acquire w)).Runs tr (.ret 0, out, d') →
      (d'.Agrees a tr ↔ agreesOn w ∨ kindless w ∧ d.cfg.HasKind (a.mode, a.kind))) ∧
    (History Station.step s ms s' →
      ∀ m ∈ ms, ∀ r, Accepts m r → r.mode = some w → chosenAttr w = some a →
        (AgreesAfter m a ↔ agreesOn w)) := by
  refine ⟨fun ha h => acquire_agrees_iff ha h, ?_⟩
  intro h m hm r hacc hw ha
  exact accepts_agrees_iff (h.valid m hm) hacc hw ha

/-- A request for the average. -/
def averageRequest : Request := { mode := some liberaIopModeAvg, samples := some 1 }

theorem averageRequest_move : ∃ m, execAll calm Station.step [.set averageRequest] calmStation () =
    some [m] ∧ m.result = .return :=
  ⟨_, rfl, rfl⟩

/-- A request for the average is accepted, and the driver acquires nothing. -/
theorem average_disagrees : ¬∀ (s s' : Station) (ms : List StationMove),
    History Station.step s ms s' → ∀ m ∈ ms, ∀ r w a, Accepts m r → r.mode = some w →
      chosenAttr w = some a → AgreesAfter m a := by
  intro h
  obtain ⟨m, hms, hres⟩ := averageRequest_move
  obtain ⟨s', hh⟩ := History.of_execAll hms
  have hacc : Accepts m averageRequest := ⟨(List.cons.inj (execAll_ops hms)).1, by decide, hres⟩
  have hm : m ∈ [m] := by simp
  have hagree := h _ _ _ hh m hm _ _ .adcAvg hacc rfl rfl
  exact absurd ((accepts_agrees_iff (hh.valid m hm) hacc rfl rfl).1 hagree) (by decide)

/-- The contract for an ACQUIRE of `DD` and for an accepted request for the average. -/
theorem mode_contract_calm :
    (∃ tr d', (calmDriver.iop (.acquire liberaIopModeDd)).Runs tr (.ret 0, .none, d') ∧
      (d'.Agrees .dd tr ↔ agreesOn liberaIopModeDd ∨
        kindless liberaIopModeDd ∧ calmDriver.cfg.HasKind (.dd, .dd))) ∧
    ∃ m, Accepts m averageRequest ∧ (AgreesAfter m .adcAvg ↔ agreesOn liberaIopModeAvg) := by
  refine ⟨?_, ?_⟩
  · obtain ⟨⟨x, u, tr⟩, hx⟩ : ∃ x, (calmDriver.iop (.acquire liberaIopModeDd)).exec calmDrv () =
      some x := ⟨_, rfl⟩
    have hrun := Prog.exec_runs hx
    obtain ⟨o, out, d'⟩ := x
    obtain ⟨rfl, rfl⟩ : Outcome.ret 0 = o ∧ IopOut.none = out := by
      cases hx
      exact ⟨rfl, rfl⟩
    have hd : chosenAttr liberaIopModeDd = some .dd := by decide
    exact ⟨tr, d', hrun,
      (mode_contract _ _ _ .dd _ _ calmStation calmStation []).1 hd hrun⟩
  · obtain ⟨m, hms, hres⟩ := averageRequest_move
    obtain ⟨s', hh⟩ := History.of_execAll hms
    have hacc : Accepts m averageRequest :=
      ⟨(List.cons.inj (execAll_ops hms)).1, by decide, hres⟩
    exact ⟨m, hacc, (mode_contract calmDriver calmDriver _ .adcAvg [] .none _ _ _).2 hh m
      (by simp) _ hacc rfl rfl⟩

end LiberaDaq
