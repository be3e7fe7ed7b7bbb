import LiberaDaq.Calibration.Refresh
import LiberaDaq.Kernel.CfgInit
import LiberaDaq.Kernel.CfgRepeat
import LiberaDaq.Kernel.SingleWriter

/-!
# The offsets of fast acquisition

The FPGA adds one offset to each coordinate. It is the sum of the offset that users set at the
configuration device and of one that depends on the beam current, which the DSC server reports to
the DSC device. Both devices write the register, and the cache of the library adds the two again.
All three agree, in any order of the requests (`offsets_agree`).
-/

namespace LiberaDaq.Calibration

open LiberaDaq.Interaction LiberaDaq.Cspi LiberaDaq.Kernel Prog

/-! ## The requests to the DSC device -/

/-- The commands of the DSC device. -/
inductive DscIoctl
  | setDsc | bcdOffsets
  deriving DecidableEq, Repr

/-- `LIBERA_DSC_MAGIC`, which is `'d'`. -/
def liberaDscMagic : ℕ := 100

/-- `LIBERA_IOC_DSC`. -/
def liberaIocDsc : ℕ := 160

/-- The size of `libera_offsets_t`. -/
def offsetsSize : ℕ := 8

/-- The numbers of the commands, `LIBERA_DSC_*`. -/
def DscIoctl.code : DscIoctl → Command
  | .setDsc => ioc iocWrite liberaDscMagic liberaIocDsc u32Size
  | .bcdOffsets => ioc iocWrite liberaDscMagic (liberaIocDsc + 1) offsetsSize

/-- The command of a number. -/
def DscIoctl.ofCode (cmd : Command) : Option DscIoctl :=
  [DscIoctl.setDsc, .bcdOffsets].find? fun c => c.code = cmd

/-- What the memory of the user makes of a request: whether `access_ok` accepts its address, the
bytes that could not be read, and the offsets as they are then, of which those bytes are
anything. -/
structure UserOffsets where
  ok : Bool
  unread : ℕ
  x : Word
  y : Word

/-- `libera_dsc_ioctl`, through `file`, of a device with the given master. The offsets are taken
even when they could not be read. -/
def liberaDscIoctl (master : Option Filp) (file : Filp) (d : CfgDevice) (cmd : Command)
    (arg : UserOffsets) : ℤ × CfgDevice :=
  if iocType cmd ≠ liberaDscMagic then (-eNoTty, d)
  else if iocNr cmd &&& liberaIocMask ≠ liberaIocDsc then (-eNoTty, d)
  else if iocDir cmd &&& (iocRead ||| iocWrite) ≠ 0 ∧ !arg.ok then (-eFault, d)
  else if iocDir cmd = iocWrite ∧ master ≠ some file then (-ePerm, d)
  else match DscIoctl.ofCode cmd with
  | some .setDsc => (arg.unread, d)
  | some .bcdOffsets => (arg.unread, d.bcdOffsets arg.x arg.y)
  | none => (-eNoTty, d)

/-- A request to the configuration device or to the DSC device, through a file, when the device has
a master. -/
inductive OffsetMove
  | cfg (master : Option Filp) (file : Filp) (cmd : Command) (arg : UserMemory)
  | dsc (master : Option Filp) (file : Filp) (cmd : Command) (arg : UserOffsets)

/-- The device after a request. -/
def offsetStep (g : Global) (d : CfgDevice) : OffsetMove → CfgDevice
  | .cfg master file cmd arg => (liberaCfgIoctl g master file d cmd arg).2
  | .dsc master file cmd arg => (liberaDscIoctl master file d cmd arg).2

/-! ## The registers -/

/-- A coordinate. -/
inductive Axis
  | x | y
  deriving DecidableEq, Repr

namespace Axis

/-- The offset that users set. -/
def fix : Axis → CfgIndex
  | x => .xoffset
  | y => .yoffset

/-- The offset that the DSC server reports. -/
def bcd : Axis → CfgIndex
  | x => .bcdXoffset
  | y => .bcdYoffset

/-- The register of the FPGA. -/
def register : Axis → CfgRegister
  | x => .faOffset 0
  | y => .faOffset 1

/-- The member of the cache. -/
def cached (c : Cache) : Axis → Word
  | x => c.xoffset
  | y => c.yoffset

/-- The member of the structure that the cache is filled from. -/
def field : Axis → EnvField
  | x => .xoffset
  | y => .yoffset

end Axis

/-- The register of a coordinate holds the sum of its offsets. -/
def Summed (a : Axis) (d : CfgDevice) : Prop :=
  d.reg a.register = d.param a.fix + d.param a.bcd

variable {g : Global} {d d' : CfgDevice} {a : Axis}

/-- A setting of the offset makes the register the sum, and the other settings leave it so. -/
theorem summed_setCfg {idx : CfgIndex} {val : Word} (h : d.setCfg g idx val = some d')
    (hs : idx = a.fix ∨ Summed a d) : Summed a d' := by
  by_cases hidx : idx = a.fix
  · subst hidx
    cases a with
    | x =>
      obtain rfl := Option.some.inj h
      simp [Summed, Axis.register, Axis.fix, Axis.bcd, CfgDevice.mirror]
    | y =>
      obtain rfl := Option.some.inj h
      simp [Summed, Axis.register, Axis.fix, Axis.bcd, CfgDevice.mirror]
  · have hs := hs.resolve_left hidx
    have hbcd : a.bcd ≠ idx := by
      rintro rfl
      cases a <;> cases h
    have hhome : a.register.home ≠ some idx := by
      cases a <;> exact fun e => hidx (Option.some.inj e).symm
    have hreg : d'.reg a.register = d.reg a.register :=
      reg_setCfg_of_home h hhome (fun _ => by cases a <;> rintro ⟨⟩) fun _ => by
        cases a <;> rintro ⟨⟩
    rw [Summed, hreg, param_setCfg_of_ne h (Ne.symm hidx), param_setCfg_of_ne h hbcd]
    exact hs

/-- The driver sets the offset when it is loaded. -/
theorem summed_setAll {ops : List (CfgIndex × Word)}
    (h : (∃ op ∈ ops, op.1 = a.fix) ∨ Summed a d) : Summed a (d.setAll g ops) := by
  induction ops generalizing d with
  | nil => exact h.resolve_left fun ⟨_, hop, _⟩ => nomatch hop
  | cons op ops ih =>
    refine ih ?_
    by_cases hrest : ∃ op ∈ ops, op.1 = a.fix
    · exact .inl hrest
    · refine .inr ?_
      have hop : op.1 = a.fix ∨ Summed a d := by
        refine h.imp_left ?_
        rintro ⟨op', hop', heq⟩
        obtain rfl | hop' := List.mem_cons.1 hop'
        · exact heq
        · exact absurd ⟨op', hop', heq⟩ hrest
      change Summed a ((d.setCfg g op.1 op.2).getD d)
      cases hset : d.setCfg g op.1 op.2 with
      | some d' => exact summed_setCfg hset hop
      | none =>
        refine hop.resolve_left fun heq => ?_
        rw [heq] at hset
        cases a <;> cases hset

theorem summed_initSpecific {reg : CfgRegister → Word} :
    Summed a (CfgDevice.initSpecific g reg) := by
  rw [initSpecific_eq]
  refine summed_setAll (.inl ⟨(a.fix, CfgDevice.initMirror g reg a.fix), ?_, rfl⟩)
  exact List.mem_map_of_mem (by cases a <;> decide)

/-- A report of the DSC server leaves both registers the sums. -/
theorem summed_bcdOffsets {x y : Word} (h : ∀ a, Summed a d) (a : Axis) :
    Summed a (d.bcdOffsets x y) := by
  have hcheck : ∀ (d : CfgDevice) (b : Axis) (v : Word), (∀ a, Summed a d) →
      ∀ a, Summed a (d.checkAndUpdate v b.bcd b.fix b.register) := by
    intro d b v h a
    unfold CfgDevice.checkAndUpdate
    split
    · by_cases hab : a = b
      · subst hab
        cases a <;> simp [Summed, Axis.register, Axis.fix, Axis.bcd, CfgDevice.mirror, add_comm]
      · have ha := h a
        cases a <;> cases b <;> first | exact absurd rfl hab | skip
        all_goals simpa [Summed, Axis.register, Axis.fix, Axis.bcd, CfgDevice.mirror,
          CfgDevice.writel] using ha
    · exact h a
  exact hcheck _ .y y (hcheck d .x x h) a

/-- Every request leaves both registers the sums. -/
theorem summed_step (m : OffsetMove) (h : ∀ a, Summed a d) (a : Axis) :
    Summed a (offsetStep g d m) := by
  cases m with
  | cfg master file cmd arg =>
    obtain hsame | ⟨idx, d', hset, -, -, heq⟩ :=
      AccessWorld.liberaCfgIoctl_cases g master file d cmd arg
    · rw [offsetStep, hsame]
      exact h a
    · rw [offsetStep, heq]
      exact summed_setCfg hset (.inr (h a))
  | dsc master file cmd arg =>
    change Summed a (liberaDscIoctl master file d cmd arg).2
    unfold liberaDscIoctl
    split
    · exact h a
    · split
      · exact h a
      · split
        · exact h a
        · split
          · exact h a
          · cases DscIoctl.ofCode cmd with
            | none => exact h a
            | some c =>
              cases c with
              | setDsc => exact h a
              | bcdOffsets => exact summed_bcdOffsets h a

/-! ## The cache -/

variable {u : CacheWorld} {l : Lib} {fd : Option File} {p : EnvParams} {flags : Bitmask}
  {es : List ParamMap}

/-- The device answers a query for a mirrored value with its mirror. -/
theorem getCfg_cached {idx : CfgIndex} (h : cached idx = true) :
    d.getCfg g idx = some (d.param idx) := by
  cases idx with
  | xoffset | yoffset | qoffset | kx | ky | bcdXoffset | bcdYoffset => rfl
  | sr m => rfl
  | sp m => rfl
  | _ => cases h

/-- A query for a mirrored value, whatever comes of it. -/
theorem wlp_query {idx : CfgIndex} {Q : Option Word → CacheWorld → Prop} (h : cached idx = true)
    (hn : Q none u) (hx : Q (some (u.cfg.dev.param idx)) u) :
    (onFile fd none fun f => sys (.getCfg f idx) : LibProg (Option Word)).wlp
      (cacheServe g) Q u := by
  cases fd with
  | none => exact hn
  | some f =>
    rintro x u' ⟨hanswer, rfl⟩
    obtain rfl | rfl := hanswer
    · exact hn
    · rw [getCfg_cached h]
      exact hx

/-- A walk over plain parameters that succeeds brings those that the flags select. -/
theorem wlp_getParams_ok (hn : (es.map (·.field)).Nodup)
    (hsel : ∀ e ∈ es, flags.hits e.mask = true → plain e = true) :
    (handleParams (getParam fd) flags es p).wlp (cacheServe g) (fun r u' => u' = u ∧
      (r.1 = cspiOk →
        (∀ e ∈ es, flags.hits e.mask = true → r.2.val e.field = u.cfg.dev.param e.code) ∧
        ∀ f, f ∉ es.map (·.field) → r.2.val f = p.val f)) u := by
  induction es generalizing p with
  | nil => exact ⟨rfl, fun _ => ⟨by simp, fun _ _ => rfl⟩⟩
  | cons e es ih =>
    obtain ⟨he, hn⟩ := List.nodup_cons.1 hn
    obtain ⟨hsel₁, hsel⟩ := List.forall_mem_cons.1 hsel
    rw [handleParams]
    cases hf : flags.hits e.mask with
    | false =>
      refine wlp_mono (ih hn hsel) ?_
      rintro r u' ⟨rfl, hok⟩
      refine ⟨rfl, fun hr => ?_⟩
      obtain ⟨hval, hframe⟩ := hok hr
      refine ⟨List.forall_mem_cons.2 ⟨fun h => ?_, hval⟩, fun f' hf' => ?_⟩
      · rw [hf] at h
        cases h
      · exact hframe f' fun h => hf' (List.mem_cons_of_mem _ h)
    | true =>
      obtain ⟨hv, hc⟩ := plain_iff.1 (hsel₁ hf)
      have hfail : ¬cspiESystem = cspiOk := by decide
      rw [if_pos rfl]
      refine wlp_bind.2 (wlp_bind.2 (wlp_query hc ?_ ?_))
      · exact ⟨rfl, fun h => absurd h hfail⟩
      · simp only [hv, Validator.run]
        change (handleParams (getParam fd) flags es
          (p.set e.field (u.cfg.dev.param e.code))).wlp _ _ u
        refine wlp_mono (ih hn hsel) ?_
        rintro r u' ⟨rfl, hok⟩
        refine ⟨rfl, fun hr => ?_⟩
        obtain ⟨hval, hframe⟩ := hok hr
        refine ⟨List.forall_mem_cons.2 ⟨fun _ => ?_, hval⟩, fun f' hf' => ?_⟩
        · rw [hframe _ he]
          exact EnvParams.set_val_self _ _ _
        · rw [List.map_cons, List.mem_cons, not_or] at hf'
          rw [hframe f' hf'.2]
          exact EnvParams.set_val_of_ne _ hf'.1 _

/-- What the DSC server is asked for the cache. -/
def asked (e : DscParamMap) : Bool :=
  match e.msg, e.value with
  | .getDsc, .int .dsc => true
  | .getFrev, .frev => true
  | _, _ => false

theorem dscGetMap_asked :
    ∀ e ∈ dscGetMap, cacheMask.hits e.mask = true → asked e = true := by decide

/-- The DSC server changes neither the offsets in the structure nor the world. -/
theorem wlp_asked {es : List DscParamMap}
    (hsel : ∀ e ∈ es, flags.hits e.mask = true → asked e = true) :
    (ebppDscHandleParams flags es p).wlp (cacheServe g)
      (fun r u' => u' = u ∧ ∀ a : Axis, r.2.val a.field = p.val a.field) u := by
  induction es generalizing p with
  | nil => exact ⟨rfl, fun _ => rfl⟩
  | cons e es ih =>
    obtain ⟨hsel₁, hsel⟩ := List.forall_mem_cons.1 hsel
    rw [ebppDscHandleParams]
    cases hf : flags.hits e.mask with
    | false => exact ih hsel
    | true =>
      rw [if_pos rfl]
      split
      · refine wlp_perform_bind.2 fun x u' hx => ?_
        have hasked := hsel₁ hf
        have hstep : u' = u ∧ ∀ v a, (e.value.received v p).val (Axis.field a) = p.val a.field := by
          unfold asked at hasked
          split at hasked
          · next hmsg hvalue =>
            rw [hmsg] at hx
            rw [hvalue]
            refine ⟨hx.2, fun v a => EnvParams.set_val_of_ne _ ?_ _⟩
            cases a <;> rintro ⟨⟩
          · next hmsg hvalue =>
            rw [hmsg] at hx
            rw [hvalue]
            exact ⟨hx, fun v a => rfl⟩
          · cases hasked
        obtain ⟨rfl, hkept⟩ := hstep
        obtain ⟨rc, reply⟩ := x
        have hreply : ∀ a : Axis,
            (reply.elim p fun v => e.value.received v p).val a.field = p.val a.field := by
          intro a
          cases reply with
          | none => rfl
          | some v => exact hkept v a
        by_cases hrc : rc = cspiOk
        · change (if rc = cspiOk then _ else _ : LibProg ParamResult).wlp _ _ _
          rw [if_pos hrc]
          refine wlp_mono (ih hsel) ?_
          rintro r u'' ⟨rfl, hr⟩
          exact ⟨rfl, fun a => (hr a).trans (hreply a)⟩
        · change (if rc = cspiOk then _ else _ : LibProg ParamResult).wlp _ _ _
          rw [if_neg hrc]
          exact ⟨rfl, hreply⟩
      · exact ⟨rfl, fun _ => rfl⟩

/-- What `custom_getenvparam` fetches for the cache, when it succeeds. -/
theorem wlp_customGetenvparam_ok : (customGetenvparam fd cacheMask p).wlp (cacheServe g)
    (fun r u' => u' = u ∧
      (r.1 = cspiOk → ∀ a : Axis, r.2.val a.field = u.cfg.dev.param a.fix)) u := by
  rw [customGetenvparam, if_neg (by decide), baseGetenvparam_cacheMask, pure_bind']
  refine wlp_seq (wlp_getParams_ok (by decide) customGetMap_plain) ?_
  rintro ⟨rc, p₁⟩ u₁ ⟨rfl, h₁⟩
  by_cases hrc : rc = cspiOk
  · have hoffset : ∀ a : Axis, p₁.val a.field = u₁.cfg.dev.param a.fix := by
      intro a
      obtain ⟨hval, -⟩ := h₁ hrc
      cases a with
      | x => exact hval ⟨envXoffset, .xoffset, .xoffset, .none⟩ (by simp [customGetMap]) (by decide)
      | y => exact hval ⟨envYoffset, .yoffset, .yoffset, .none⟩ (by simp [customGetMap]) (by decide)
    rw [ParamResult.andThen, if_pos hrc]
    refine wlp_seq (wlp_asked dscGetMap_asked) ?_
    rintro ⟨rc₂, p₂⟩ u₂ ⟨rfl, h₂⟩
    have hoffset₂ : ∀ a : Axis, p₂.val a.field = u₂.cfg.dev.param a.fix := fun a =>
      (h₂ a).trans (hoffset a)
    rw [ParamResult.andThen]
    split
    · rw [ebppGetPllparam, if_pos (by decide)]
      refine wlp_perform_bind.2 fun x u' hx => ?_
      obtain rfl : u' = u₂ := hx
      exact ⟨rfl, fun _ => hoffset₂⟩
    · exact ⟨rfl, fun _ => hoffset₂⟩
  · have hfail : ∀ k : EnvParams → LibProg ParamResult,
        ParamResult.andThen (rc, p₁) k = Pure.pure (rc, p₁) := fun k => if_neg hrc
    rw [hfail, pure_bind', hfail]
    exact ⟨rfl, fun h => absurd h hrc⟩

/-- The cache after a refresh that succeeds. -/
theorem wlp_updateCache_ok (a : Axis) : l.ebppUpdateCache.wlp (cacheServe g) (fun r _ =>
    r.1 = cspiOk → a.cached r.2.cache = u.cfg.dev.param a.fix + u.cfg.dev.param a.bcd) u := by
  rw [Lib.ebppUpdateCache]
  refine wlp_perform_bind.2 fun ep u' hx => ?_
  obtain rfl : u' = u := hx
  refine wlp_seq wlp_customGetenvparam_ok ?_
  rintro ⟨rc, ep⟩ u₁ ⟨rfl, hep⟩
  dsimp only
  split
  · next hrc =>
    have hep := hep hrc
    have hfail : ¬cspiESystem = cspiOk := by decide
    refine wlp_bind.2 (wlp_lockCache.2 fun _ => ?_)
    refine wlp_bind.2 (wlp_query rfl ?_ ?_)
    · exact fun h => absurd h hfail
    · refine wlp_bind.2 (wlp_query rfl ?_ ?_)
      · exact fun h => absurd h hfail
      · intro _
        cases a with
        | x => exact congrArg (· + _) (hep .x)
        | y => exact congrArg (· + _) (hep .y)
  · next hrc => exact fun h => absurd h hrc

/-- Any requests leave both registers the sums. -/
theorem summed_run (ms : List OffsetMove) (h : ∀ a, Summed a d) (a : Axis) :
    Summed a (ms.foldl (offsetStep g) d) := by
  induction ms generalizing d with
  | nil => exact h a
  | cons m ms ih => exact ih (summed_step m h)

/-- **The offsets of fast acquisition agree.** After any requests to the two devices since the
driver was loaded, the register of a coordinate holds the sum of its offsets, and so does the cache
after a refresh that succeeds. -/
theorem offsets_agree (g : Global) (reg : CfgRegister → Word) (ms : List OffsetMove) (a : Axis)
    (l : Lib) (master : Option File) (gains : Word → ℤ) (dsc : Word) (pending : List ℕ) :
    let d := ms.foldl (offsetStep g) (CfgDevice.initSpecific g reg)
    d.reg a.register = d.param a.fix + d.param a.bcd ∧
      l.ebppUpdateCache.wlp (cacheServe g) (fun r _ =>
        r.1 = cspiOk → a.cached r.2.cache = d.reg a.register)
          ⟨⟨d, master, gains⟩, dsc, pending⟩ := by
  intro d
  have hsum : Summed a d := summed_run ms (fun _ => summed_initSpecific) a
  refine ⟨hsum, ?_⟩
  rw [show d.reg a.register = _ from hsum]
  exact wlp_updateCache_ok a

end LiberaDaq.Calibration
