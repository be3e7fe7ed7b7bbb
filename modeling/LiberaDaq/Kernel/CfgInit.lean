import LiberaDaq.Kernel.CfgGroups

/-!
# The configuration device when the driver is loaded

`libera_init_specific` fills the mirror and sets every parameter to its entry there, without looking
at what the settings return (`initSpecific_eq`). The interlock group agrees from the start
(`initSpecific_ilk`). The last member of the post-mortem group is the duration, and it is refused
when the module was loaded with a smaller bound for it (`initSpecific_pm`).
-/

namespace LiberaDaq.Kernel

open LiberaDaq.Cspi

variable {g : Global} {d : CfgDevice} {grp : CfgGroup} {ops : List (CfgIndex × Word)}

/-! ## The loop -/

/-- The loop of `libera_init_specific` sets each parameter to its entry in the initial mirror. -/
theorem foldl_initParam {idxs : List CfgIndex} (hn : idxs.Nodup)
    (hs : ∀ idx ∈ idxs, ∀ d : CfgDevice, ∀ v, d.setCfg g idx v = d.setSpecific g idx v) :
    idxs.foldl (CfgDevice.initParam g) d = d.setAll g (idxs.map fun idx => (idx, d.param idx)) := by
  induction idxs generalizing d with
  | nil => rfl
  | cons idx idxs ih =>
    obtain ⟨hidx, hn⟩ := List.nodup_cons.1 hn
    have hstep : d.initParam g idx = (d.setCfg g idx (d.param idx)).getD d := by
      rw [CfgDevice.initParam, hs idx List.mem_cons_self]
    have hp : ∀ j ∈ idxs, (d.initParam g idx).param j = d.param j := by
      intro j hj
      rw [hstep]
      cases hset : d.setCfg g idx (d.param idx) with
      | none => rfl
      | some d' => exact param_setCfg_of_ne hset fun h => hidx (h ▸ hj)
    rw [List.foldl_cons, ih hn fun j hj => hs j (List.mem_cons_of_mem _ hj),
      List.map_congr_left fun j hj => congrArg (Prod.mk j) (hp j hj), hstep]
    rfl

/-- The device before the loop of `libera_init_specific`. -/
def CfgDevice.powerOn (g : Global) (reg : CfgRegister → Word) : CfgDevice :=
  ⟨CfgDevice.initMirror g reg, reg, [], false⟩

/-- The settings of the loop. -/
def initOps (g : Global) (reg : CfgRegister → Word) : List (CfgIndex × Word) :=
  CfgDevice.customIndices.map fun idx => (idx, CfgDevice.initMirror g reg idx)

variable {reg : CfgRegister → Word}

theorem initOps_fst : (initOps g reg).map Prod.fst = CfgDevice.customIndices := by
  rw [initOps, List.map_map]
  exact List.map_id _

theorem customIndices_nodup : CfgDevice.customIndices.Nodup := by decide

theorem customIndices_ends (grp : CfgGroup) : EndsGroup grp CfgDevice.customIndices := by
  cases grp <;> decide

theorem initSpecific_eq :
    CfgDevice.initSpecific g reg = (CfgDevice.powerOn g reg).setAll g (initOps g reg) := by
  refine foldl_initParam customIndices_nodup fun idx hidx d v => ?_
  cases idx with
  | trigmode | mcpll | scpll => exact absurd hidx (by decide)
  | _ => rfl

/-- The settings that the device takes. -/
theorem setAll_filter :
    d.setAll g (ops.filter fun op => accepts g op.1 op.2) = d.setAll g ops := by
  induction ops generalizing d with
  | nil => rfl
  | cons op ops ih =>
    cases hop : accepts g op.1 op.2 with
    | true =>
      rw [List.filter_cons_of_pos (by exact hop)]
      exact ih
    | false =>
      have hnone : d.setCfg g op.1 op.2 = none := by
        rw [← Option.not_isSome_iff_eq_none, setCfg_isSome, hop]
        exact Bool.false_ne_true
      rw [List.filter_cons_of_neg (by simp [hop]), ih]
      simp only [CfgDevice.setAll, List.foldl_cons, hnone, Option.getD_none]

theorem ilkAdc_le : CfgDevice.ilkAdc g ≤ maxLimit g := by
  unfold CfgDevice.ilkAdc maxLimit
  split <;> decide

/-- The initial entries of the post-mortem group are accepted, but for the duration when the module
was loaded with a smaller bound for it. -/
theorem initMirror_accepted {m : PmMember} (hm : m = .overflowDur → 5 ≤ g.pmdur) :
    accepts g (.pm m) (CfgDevice.initMirror g reg (.pm m)) := by
  cases m with
  | overflowLimit => exact decide_eq_true ilkAdc_le
  | overflowDur => exact decide_eq_true ⟨hm rfl, (by decide : (5 : Word) ≤ maxdur)⟩
  | _ => rfl

/-! ## The groups -/

/-- The interlock group agrees from the start. -/
theorem initSpecific_ilk : AgreesOn g .ilk (CfgDevice.initSpecific g reg) := by
  rw [initSpecific_eq]
  have hlast : (CfgGroup.ilk.last, CfgDevice.initMirror g reg CfgGroup.ilk.last) ∈ initOps g reg :=
    List.mem_map_of_mem (by decide)
  refine agreesOn_setAll_of_last hlast rfl ?_
  rw [initOps_fst]
  exact customIndices_ends .ilk

/-- The module was loaded with a bound that admits the initial duration of the post-mortem group, or
the registers came up with what the initial parameters encode to. -/
def PmReady (g : Global) (reg : CfgRegister → Word) : Prop :=
  5 ≤ g.pmdur ∨ ∀ j, CfgGroup.of j = some .pm →
    encode g j (mirrored g j (CfgDevice.initMirror g reg j)) = (CfgDevice.powerOn g reg).shown j

theorem initSpecific_pm : AgreesOn g .pm (CfgDevice.initSpecific g reg) ↔ PmReady g reg := by
  rw [initSpecific_eq]
  by_cases h5 : 5 ≤ g.pmdur
  · refine iff_of_true ?_ (.inl h5)
    have hlast : (CfgGroup.pm.last, CfgDevice.initMirror g reg CfgGroup.pm.last) ∈ initOps g reg :=
      List.mem_map_of_mem (by decide)
    refine agreesOn_setAll_of_last hlast (initMirror_accepted fun _ => h5) ?_
    rw [initOps_fst]
    exact customIndices_ends .pm
  · -- the duration is refused, so that the settings of the group stop in the mirror
    let ops := (initOps g reg).filter fun op => accepts g op.1 op.2
    have hmem : ∀ j v, (j, v) ∈ ops ↔ j ∈ CfgDevice.customIndices ∧
        v = CfgDevice.initMirror g reg j ∧ accepts g j v = true := by
      intro j v
      simp only [ops, initOps, List.mem_filter, List.mem_map, Prod.mk.injEq]
      grind
    have hlast : ∀ op ∈ ops, op.1 ≠ CfgGroup.pm.last := by
      intro op hop h
      obtain ⟨-, hv, hok⟩ := (hmem op.1 op.2).1 hop
      rw [h] at hv hok
      rw [hv] at hok
      exact h5 (of_decide_eq_true hok).1
    have hn : (ops.map Prod.fst).Nodup :=
      (List.filter_sublist.map Prod.fst).nodup (initOps_fst ▸ customIndices_nodup)
    have hset := fun j hj => setAll_members (g := g) (d := CfgDevice.powerOn g reg) (j := j)
      (fun op hop => (List.mem_filter.1 hop).2) hlast hn hj
    rw [← setAll_filter, agreesOn_iff]
    refine Iff.trans (forall₂_congr fun j hj => ?_) (or_iff_right h5).symm
    obtain ⟨hs, hin, hout⟩ := hset j hj
    rw [hs]
    cases j with
    | pm m =>
      by_cases hm : m = .overflowDur
      · subst hm
        rw [hout fun h => ?_]
        · rfl
        · obtain ⟨op, hop, h⟩ := List.mem_map.1 h
          exact hlast op hop h
      · rw [hin _ ((hmem _ _).2 ⟨by cases m <;> decide, rfl,
          initMirror_accepted fun h => absurd h hm⟩)]
    | _ => cases hj

end LiberaDaq.Kernel
