import LiberaDaq.Driver.IopRuns

/-!
# The kind of an acquisition

The successive `if`s of ACQUIRE over the mode bits leave the kind of the last one whose bit is set.
`acquireKind` is this kind as a function of the mode word, and the lemmas say what ACQUIRE makes of
each member of the configuration.
-/

namespace LiberaDaq

open Cspi Interaction

/-- The CSPI mode and the atoms that ACQUIRE takes for a mode word, if it takes any. -/
def acquireKind (w : Word) : Option (Mode × AtomKind) :=
  if hits w liberaIopModeAdc then
    if hits w liberaIopModeSinglepass then some (.adcSp, .adcSp)
    else if hits w liberaIopModeContinuous then some (.adcCw, .adcCw)
    else some (.adc, .adc)
  else if hits w liberaIopModePm then some (.pm, .dd)
  else if hits w liberaIopModeSa then some (.sa, .sa)
  else if hits w liberaIopModeDd then some (.dd, .dd)
  else none

/-- The members of the configuration that hold the kind of an acquisition. -/
def LiberaConfig.HasKind (cfg : LiberaConfig) (k : Mode × AtomKind) : Prop :=
  cfg.operation = .acquire ∧ cfg.mode = k.1 ∧ cfg.datasize = BitVec.ofNat 32 k.2.size

/-- The two configurations agree on the members that hold the kind of an acquisition. -/
def LiberaConfig.SameKind (cfg cfg' : LiberaConfig) : Prop :=
  cfg'.operation = cfg.operation ∧ cfg'.mode = cfg.mode ∧ cfg'.datasize = cfg.datasize

variable {cfg : LiberaConfig} {w : Word} {k : Mode × AtomKind}

/-- ACQUIRE compares its opcode, not the mode word, with the bit of the average. -/
theorem acquireAvg_eq : acquireAvg cfg = cfg := by
  have h : hits liberaIopCmdAcquire liberaIopModeAvg = false := by decide
  rw [acquireAvg, h]
  rfl

theorem acquireAdc_kind (cfg : LiberaConfig) (h : hits w liberaIopModeAdc) :
    (acquireAdc w cfg).HasKind (if hits w liberaIopModeSinglepass then (.adcSp, .adcSp)
      else if hits w liberaIopModeContinuous then (.adcCw, .adcCw) else (.adc, .adc)) := by
  rw [acquireAdc, if_pos h]
  cases hits w liberaIopModeContinuous <;> cases hits w liberaIopModeSinglepass <;>
    exact ⟨rfl, rfl, rfl⟩

/-- **The kind that ACQUIRE takes.** -/
theorem acquireConfig_hasKind (cfg : LiberaConfig) (h : acquireKind w = some k) :
    (acquireConfig w cfg).HasKind k := by
  rw [acquireConfig, acquireAvg_eq]
  unfold acquireKind at h
  split at h
  · next hadc =>
    have hkind := acquireAdc_kind (acquirePm w (acquireSa w (acquireDd w
      (acquireFlags w cfg)))) hadc
    split at h
    · next hsp =>
      obtain rfl := Option.some.inj h
      rwa [if_pos hsp] at hkind
    · next hsp =>
      rw [if_neg hsp] at hkind
      split at h
      · next hcw =>
        obtain rfl := Option.some.inj h
        rwa [if_pos hcw] at hkind
      · next hcw =>
        obtain rfl := Option.some.inj h
        rwa [if_neg hcw] at hkind
  · next hadc =>
    rw [acquireAdc, if_neg hadc]
    split at h
    · next hpm =>
      obtain rfl := Option.some.inj h
      rw [acquirePm, if_pos hpm]
      exact ⟨rfl, rfl, rfl⟩
    · next hpm =>
      rw [acquirePm, if_neg hpm]
      split at h
      · next hsa =>
        obtain rfl := Option.some.inj h
        rw [acquireSa, if_pos hsa]
        exact ⟨rfl, rfl, rfl⟩
      · next hsa =>
        rw [acquireSa, if_neg hsa]
        split at h
        · next hdd =>
          obtain rfl := Option.some.inj h
          rw [acquireDd, if_pos hdd]
          exact ⟨rfl, rfl, rfl⟩
        · cases h

/-- Without a mode bit of the driver, ACQUIRE takes over the flags only. -/
theorem acquireConfig_of_none (h : acquireKind w = none) :
    acquireConfig w cfg = acquireFlags w cfg := by
  unfold acquireKind at h
  rw [acquireConfig, acquireAvg_eq]
  split at h
  · split at h
    · cases h
    · split at h <;> cases h
  · next hadc =>
    split at h
    · cases h
    · next hpm =>
      split at h
      · cases h
      · next hsa =>
        split at h
        · cases h
        · next hdd =>
          rw [acquireAdc, if_neg hadc, acquirePm, if_neg hpm, acquireSa, if_neg hsa, acquireDd,
            if_neg hdd]

/-- What ACQUIRE makes of the members that do not hold the kind. -/
theorem acquireConfig_rest (w : Word) (cfg : LiberaConfig) :
    (acquireConfig w cfg).atomCount = cfg.atomCount ∧
    (acquireConfig w cfg).ddOffset = cfg.ddOffset ∧
    (acquireConfig w cfg).mask = (acquireFlags w cfg).mask ∧
    (acquireConfig w cfg).ddDecimation = (acquireFlags w cfg).ddDecimation := by
  have hadc : ∀ cfg, (acquireAdc w cfg).atomCount = cfg.atomCount ∧
      (acquireAdc w cfg).ddOffset = cfg.ddOffset ∧ (acquireAdc w cfg).mask = cfg.mask ∧
      (acquireAdc w cfg).ddDecimation = cfg.ddDecimation := by
    intro cfg
    unfold acquireAdc
    cases hits w liberaIopModeAdc <;> cases hits w liberaIopModeContinuous <;>
      cases hits w liberaIopModeSinglepass <;> exact ⟨rfl, rfl, rfl, rfl⟩
  rw [acquireConfig, acquireAvg_eq, (hadc _).1, (hadc _).2.1, (hadc _).2.2.1, (hadc _).2.2.2]
  unfold acquirePm acquireSa acquireDd
  cases hits w liberaIopModePm <;> cases hits w liberaIopModeSa <;> cases hits w liberaIopModeDd <;>
    exact ⟨rfl, rfl, rfl, rfl⟩

/-! ## A successful ACQUIRE -/

variable {d d' : Driver} {tr : List DrvEvent} {out : IopOut}

/-- The connection was configured and opened in a mode, by the last two calls. -/
def ConnectedIn (d : Driver) (mode : Mode) (tr : List DrvEvent) : Prop :=
  ∃ t p f, tr = t ++ [cspiEvent (.setconparam d.conHandle p f) cspiOk,
    cspiEvent (.connect d.conHandle) cspiOk] ∧ p.mode = mode ∧ f.hits conMode

theorem hits_paramMask (d : Driver) : d.paramMask.hits conMode := by
  unfold Driver.paramMask
  split
  · decide
  · decide

/-- What a tail that returns `0` leaves. -/
theorem iopTail_zero (h : d.iopTail.Runs tr (0, d')) : d'.cfg = d.cfg ∧
    d'.conHandle = d.conHandle ∧ (d.cfg.operation = .acquire → ConnectedIn d' d'.cfg.mode tr) := by
  by_cases hop : d.cfg.operation = .acquire
  · obtain ⟨hrun, rfl⟩ := (iopTail_runs hop).1 h
    refine ⟨rfl, rfl, fun _ => ?_⟩
    cases hrun with
    | refused _ hrc => exact absurd rfl hrc
    | connect => exact ⟨[], d.setParams.p, d.paramMask, rfl, rfl, hits_paramMask d⟩
  · obtain ⟨-, -, rfl⟩ := (iopTail_runs_of_ne hop).1 h
    exact ⟨rfl, rfl, fun h => absurd h hop⟩

theorem ConnectedIn.append {mode : Mode} (h : ConnectedIn d mode tr) (t : List DrvEvent) :
    ConnectedIn d mode (t ++ tr) := by
  obtain ⟨t', p, f, rfl, hp, hf⟩ := h
  exact ⟨t ++ t', p, f, (List.append_assoc _ _ _).symm, hp, hf⟩

/-- **An ACQUIRE that returns `0`** took the mode word over, and where the operation is `acquire`
it configured and opened the connection in the mode of the configuration. -/
theorem iop_acquire_zero (h : (d.iop (.acquire w)).Runs tr (.ret 0, out, d')) :
    d'.cfg = acquireConfig w d.cfg ∧
      (d'.cfg.operation = .acquire → ConnectedIn d' d'.cfg.mode tr) := by
  obtain ⟨ep, t₁, t₂, rc, rfl, -, htail, hrc, -⟩ := iop_acquire_runs.1 h
  obtain rfl : 0 = rc := Outcome.ret.inj hrc
  obtain ⟨hcfg, -, hconn⟩ := iopTail_zero htail
  refine ⟨hcfg, fun hop => ?_⟩
  rw [hcfg] at hop
  exact (hconn hop).append (hostEvent .uninitEnv ep :: t₁)

end LiberaDaq
