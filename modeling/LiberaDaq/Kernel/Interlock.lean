import LiberaDaq.Kernel.CfgInit
import LiberaDaq.Kernel.CfgStation

/-!
# The interlock and what the device reports of it

The parameters of the interlock and of the post-mortem acquisition that the configuration device
reports are those of its mirror, and the FPGA works with its registers. Over the calls of
`cspi_setenvparam` by any processes the two agree as long as every call carries the groups that it
sets (`registers_agree_iff`): a call that is refused after it has set a member of a group and before
it gets to the last one leaves the device with a mirror that it reports and the FPGA does not know
of (`interlock_not_enforced`).
-/

namespace LiberaDaq.Kernel

open LiberaDaq.Interaction LiberaDaq.Cspi Prog

/-! ## Calls -/

/-- A call of `cspi_setenvparam`, with the library of the process that makes it. -/
structure SetCall where
  lib : Lib
  handle : Handle
  params : EnvParams
  flags : Bitmask

namespace SetCall

/-- The call; what it leaves of the library is not followed up. -/
def run (c : SetCall) (_ : Unit) : LibProg (ParamResult × Unit) := do
  let (r, _) ← c.lib.setenvparam c.handle c.params c.flags
  Pure.pure (r, ())

/-- The settings that the call makes from the table with the groups. -/
def settings (g : Global) (u : CfgWorld) (c : SetCall) : List (CfgIndex × Word) :=
  if c.handle = .env then groupSettings g u c.lib.env.fd c.lib.decimation c.params c.flags else []

/-- The call carries both groups: it gets to the last member of a group that it sets, or the
registers show already what it set before it was refused. -/
def Carries (g : Global) (u : CfgWorld) (c : SetCall) : Prop :=
  ∀ grp, Carried g grp u.dev (c.settings g u)

end SetCall

/-- A call with the answers that it got. -/
abbrev SetMove := Move SetCall ParamResult (Unit × CfgWorld) SysEvent

variable {g : Global} {u : CfgWorld} {c : SetCall} {grp : CfgGroup}

/-! ## One call -/

theorem settings_accepted {op : CfgIndex × Word} (h : op ∈ c.settings g u) :
    accepts g op.1 op.2 := by
  unfold SetCall.settings groupSettings at h
  split at h
  · split at h
    · exact sentParams_accepted h
    · cases h
  · cases h

theorem settings_sublist : ((c.settings g u).map Prod.fst).Sublist
    ((customSetMap c.lib.decimation).map (·.code)) := by
  unfold SetCall.settings groupSettings
  split
  · split
    · exact sentParams_sublist
    · exact List.nil_sublist _
  · exact List.nil_sublist _

/-- The last member of a group is the last one that the table has of it. -/
theorem customSetMap_ends (decimation : Word) :
    EndsGroup grp ((customSetMap decimation).map (·.code)) := by
  have h : (customSetMap decimation).map (·.code) = (customSetMap 0).map (·.code) := rfl
  rw [h]
  cases grp <;> decide

/-- What a call does to the groups. -/
theorem wlp_run : (c.run ()).wlp (cfgServe g) (fun _ u' => ∃ d,
    (∀ grp, SameGroup grp u.dev d) ∧
    ∀ grp, SameGroup grp (d.setAll g (c.settings g u)) u'.dev) u := by
  have hrefused : ∃ d, (∀ grp, SameGroup grp u.dev d) ∧
      ∀ grp, SameGroup grp (d.setAll g []) u.dev := ⟨u.dev, fun _ => .refl _, fun _ => .refl _⟩
  obtain ⟨l, h, p, flags⟩ := c
  unfold SetCall.run SetCall.settings Lib.setenvparam
  cases h with
  | null => exact hrefused
  | con q =>
    rw [wlp_bind, wlp_bind, Lib.isHenv, wlp_bind, wlp_deref]
    exact fun _ _ => hrefused
  | env =>
    rw [wlp_bind, wlp_bind, if_pos rfl]
    refine wlp_bind.2 (wlp_lock.2 fun _ => wlp_bind.2 (wlp_bind.2 ?_))
    exact wlp_mono (wlp_setEnvparams l.decimation) fun _ _ h => h

/-- **A call keeps the agreement exactly when it carries both groups.** -/
theorem agrees_call {m : SetMove} (hm : m.ServedBy SetCall.run (cfgServe g))
    (h : Agrees g m.before.2.dev) : m.op.Carries g m.before.2 ↔ Agrees g m.after.2.dev := by
  obtain ⟨d, hd, hd'⟩ := hm.of_wlp wlp_run
  refine forall_congr' fun grp => ?_
  rw [(hd' grp).agreesOn_iff, agreesOn_setAll_iff ((hd grp).agreesOn_iff.2 (h grp))
    (fun op => settings_accepted) (settings_sublist.nodup (customSetMap_codes _))
    ((customSetMap_ends _).sublist settings_sublist)]
  refine or_congr_right (forall₂_congr fun op _ => forall_congr' fun hg => ?_)
  rw [(hd grp op.1 hg).2]

/-- What happens between the calls leaves the groups alone. -/
theorem sameGroup_drift {u' : CfgWorld} (h : CfgDrift u u') : SameGroup grp u.dev u'.dev := by
  cases h with
  | opened => exact .refl _
  | gains => exact .refl _
  | offsets => exact sameGroup_bcdOffsets

/-! ## Runs -/

/-- A device that answers every query, and a DSC server that reports no new offsets. -/
def cfgHandler (g : Global) : Handler SysCall SysAns CfgWorld
  | .setCfg f idx val, u =>
    if u.master = some f then
      some ((u.dev.setCfg g idx val).isSome,
        { u with dev := (u.dev.setCfg g idx val).getD u.dev })
    else some (false, u)
  | .getCfg _ idx, u => some (u.dev.getCfg g idx, u)
  | .toattn w, u => some (u.gains w, u)
  | .dscMessage _ val, u => some ((0, some val), u)
  | c, u => (granting c 0).map fun r => (r.1, u)

/-- Offsets that are known already change nothing. -/
theorem bcdOffsets_self (d : CfgDevice) :
    d.bcdOffsets (d.param .bcdXoffset) (d.param .bcdYoffset) = d := by
  simp [CfgDevice.bcdOffsets, CfgDevice.checkAndUpdate]

theorem cfgHandler_serves (c : SysCall) (u : CfgWorld) (x : SysAns c) (u' : CfgWorld)
    (h : cfgHandler g c u = some (x, u')) : cfgServe g c x u u' := by
  cases c with
  | setCfg f idx val =>
    simp only [cfgHandler] at h
    simp only [cfgServe]
    split at h
    · next hm =>
      obtain ⟨rfl, rfl⟩ := Prod.mk.inj (Option.some.inj h)
      exact (if_pos hm).symm ▸ ⟨rfl, rfl⟩
    · next hm =>
      obtain ⟨rfl, rfl⟩ := Prod.mk.inj (Option.some.inj h)
      exact (if_neg hm).symm ▸ ⟨rfl, rfl⟩
  | getCfg f idx =>
    obtain ⟨rfl, rfl⟩ := Prod.mk.inj (Option.some.inj h)
    exact ⟨.inr rfl, rfl⟩
  | toattn w =>
    obtain ⟨rfl, rfl⟩ := Prod.mk.inj (Option.some.inj h)
    exact ⟨rfl, rfl⟩
  | dscMessage m val =>
    obtain ⟨rfl, rfl⟩ := Prod.mk.inj (Option.some.inj h)
    exact ⟨u.dev.param .bcdXoffset, u.dev.param .bcdYoffset, by rw [bcdOffsets_self]⟩
  | hang | fault => exact x.elim
  | _ =>
    simp only [cfgHandler, Option.map_eq_some_iff, Prod.mk.injEq] at h
    obtain ⟨-, -, -, rfl⟩ := h
    rfl

/-- A Libera Brilliance whose driver was loaded with its default parameters. -/
def brilliance : Global := ⟨0x01000000, 500, 100, 3, 1000, 1000, 1000⟩

/-- The world after the driver was loaded, when a process has opened the device for writing. -/
def cfgStart : CfgWorld :=
  ⟨CfgDevice.initSpecific brilliance fun _ => 0, some ⟨3, .rdwr⟩, fun _ => 20⟩

/-- A call of that process for the interlock group. -/
def ilkCall (ilk : IlkMember → Word) : SetCall where
  lib := Lib.loaded.setEnv fun e => { e with fd := some ⟨3, .rdwr⟩, usageCount := 1 }
  handle := .env
  params := ⟨fun f => match f with | .ilk m => ilk m | _ => 0, ⟨0, 0⟩, 0⟩
  flags := envIlk

/-- A call that narrows the horizontal limits. -/
def fullCall : SetCall := ilkCall fun m =>
  match m with
  | .xlow => -500000
  | .xhigh => 500000
  | _ => 1

/-- The same with an upper limit that is out of range. -/
def halfCall : SetCall := ilkCall fun m =>
  match m with
  | .xlow => -500000
  | .xhigh => 0x2000000
  | _ => 1

set_option maxRecDepth 4000 in
theorem fullCall_returns :
    ((fullCall.run ()).exec (cfgHandler brilliance) cfgStart).isSome := by
  decide

/-! ## All calls -/

/-- **The registers agree with what the device reports after every call exactly when** the
post-mortem group was ready when the driver was loaded and every call carries the groups. -/
theorem registers_agree_iff (g : Global) (reg : CfgRegister → Word) {master : Option File}
    {gains : Word → ℤ} {ms : List SetMove} {w : Unit × CfgWorld}
    (hh : Joint SetCall.run (cfgServe g) CfgDrift
      ((), ⟨CfgDevice.initSpecific g reg, master, gains⟩) ms w) :
    (Agrees g (CfgDevice.initSpecific g reg) ∧ ∀ m ∈ ms, Agrees g m.after.2.dev) ↔
      PmReady g reg ∧ ∀ m ∈ ms, m.op.Carries g m.before.2 := by
  have hstart : Agrees g (CfgDevice.initSpecific g reg) ↔ PmReady g reg := by
    rw [← initSpecific_pm]
    refine ⟨fun h => h .pm, fun h grp => ?_⟩
    cases grp with
    | ilk => exact initSpecific_ilk
    | pm => exact h
  rw [hstart]
  refine and_congr_right fun hready => ?_
  have hall := Joint.rule_iff (I := fun w => Agrees g w.2.dev)
    (G := fun m => m.op.Carries g m.before.2) (fun m hm h => agrees_call hm h)
    (fun _ _ _ h hd grp => (sameGroup_drift hd).agreesOn_iff.2 (h grp)) hh (hstart.2 hready)
  exact hall.1.symm

theorem registers_agree_fullCall : ∃ ms w, Joint SetCall.run (cfgServe brilliance) CfgDrift
      ((), cfgStart) ms w ∧ ms ≠ [] ∧
    ((Agrees brilliance cfgStart.dev ∧ ∀ m ∈ ms, Agrees brilliance m.after.2.dev) ↔
      PmReady brilliance (fun _ => 0) ∧ ∀ m ∈ ms, m.op.Carries brilliance m.before.2) := by
  obtain ⟨⟨⟨r, _⟩, u', tr⟩, he⟩ := Option.isSome_iff_exists.1 fullCall_returns
  have hrun : Joint SetCall.run (cfgServe brilliance) CfgDrift ((), cfgStart) _ ((), u') :=
    Joint.exec cfgHandler_serves (Joint.nil _) fullCall he
  exact ⟨_, _, hrun, List.cons_ne_nil _ _, registers_agree_iff brilliance (fun _ => 0) hrun⟩

set_option maxRecDepth 4000 in
theorem halfCall_leaves : ((halfCall.run ()).exec (cfgHandler brilliance) cfgStart).map
    (fun r => (r.2.1.dev.param (.ilk .xlow), r.2.1.dev.shown (.ilk .xlow))) =
      some (-500000, -1000000) := by
  decide

/-- After a call that was refused half-way, the device reports a limit that the FPGA does not
enforce. -/
theorem interlock_not_enforced : ¬∀ (g : Global) (reg : CfgRegister → Word) (master : Option File)
    (gains : Word → ℤ) (ms : List SetMove) (w : Unit × CfgWorld),
    Joint SetCall.run (cfgServe g) CfgDrift
      ((), ⟨CfgDevice.initSpecific g reg, master, gains⟩) ms w →
    ∀ m ∈ ms, Agrees g m.after.2.dev := by
  intro h
  obtain ⟨⟨⟨r, _⟩, u', tr⟩, he, hu⟩ := Option.map_eq_some_iff.1 halfCall_leaves
  obtain ⟨hp, hs⟩ := Prod.mk.inj hu
  have hrun : Joint SetCall.run (cfgServe brilliance) CfgDrift ((), cfgStart) _ ((), u') :=
    Joint.exec cfgHandler_serves (Joint.nil _) halfCall he
  have hagree := agreesOn_iff.1 (h _ _ _ _ _ _ hrun _ (List.mem_singleton_self _) .ilk)
    (.ilk .xlow) rfl
  change u'.dev.param (.ilk .xlow) = u'.dev.shown (.ilk .xlow) at hagree
  rw [hp, hs] at hagree
  exact absurd hagree (by decide)

end LiberaDaq.Kernel
