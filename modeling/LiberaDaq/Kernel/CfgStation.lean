import LiberaDaq.Kernel.CfgGroups
import LiberaDaq.Cspi.Confinement
import LiberaDaq.Cspi.Frames
import Mathlib.Data.List.TakeWhile

/-!
# Setting parameters at the configuration device

The library sets environment parameters one after the other, and a call stops at the first one that
a validator or the device refuses. Which of them it sends is therefore known from the call and from
the device before it (`sentParams`), and what the device is after a table of parameters are the
settings that were sent (`wlp_handleParams`).

The device takes settings from one open file only, its master. Between the calls the device may be
opened and closed, the table of gains may change, and so may the offsets that the DSC server finds.
-/

namespace LiberaDaq.Kernel

open LiberaDaq.Interaction LiberaDaq.Cspi Prog

/-! ## The world -/

/-- The device, the open file that it takes settings from (`master_filp`, if the process that calls
has it), and what `ebpp_toattn` makes of a gain. -/
structure CfgWorld where
  dev : CfgDevice
  master : Option File
  gains : Word → ℤ

/-- `libera_cfg_ioctl` and the DSC server as the library sees them. A query may fail as well; the
DSC server may report new offsets while it answers. -/
def cfgServe (g : Global) : Serves SysCall SysAns CfgWorld
  | .setCfg f idx val, x, u, u' =>
    if u.master = some f then
      x = (u.dev.setCfg g idx val).isSome ∧
        u' = { u with dev := (u.dev.setCfg g idx val).getD u.dev }
    else x = false ∧ u' = u
  | .getCfg _ idx, x, u, u' => (x = none ∨ x = u.dev.getCfg g idx) ∧ u' = u
  | .toattn w, x, u, u' => x = u.gains w ∧ u' = u
  | .dscMessage _ _, _, u, u' => ∃ x y, u' = { u with dev := u.dev.bcdOffsets x y }
  | _, _, u, u' => u' = u

/-- A setting is always answered. -/
theorem exists_cfgServe_setCfg (g : Global) (f : File) (idx : CfgIndex) (w : Word) (u : CfgWorld) :
    ∃ x u', cfgServe g (.setCfg f idx w) x u u' := by
  by_cases hmaster : u.master = some f
  · refine ⟨(u.dev.setCfg g idx w).isSome, { u with dev := (u.dev.setCfg g idx w).getD u.dev }, ?_⟩
    rw [cfgServe, if_pos hmaster]
    exact ⟨rfl, rfl⟩
  · refine ⟨false, u, ?_⟩
    rw [cfgServe, if_neg hmaster]
    exact ⟨rfl, rfl⟩

/-- The world after settings at the device. -/
def CfgWorld.setAll (g : Global) (u : CfgWorld) (ops : List (CfgIndex × Word)) : CfgWorld :=
  { u with dev := u.dev.setAll g ops }

/-- What happens between the calls. -/
inductive CfgDrift : CfgWorld → CfgWorld → Prop
  | opened (u : CfgWorld) (master : Option File) : CfgDrift u { u with master := master }
  | gains (u : CfgWorld) (gains : Word → ℤ) : CfgDrift u { u with gains := gains }
  | offsets (u : CfgWorld) (x y : Word) : CfgDrift u { u with dev := u.dev.bcdOffsets x y }

/-! ## What a call sends -/

/-- What a validator says of a value, and the value that it leaves, for a table of gains. -/
def evalValidator (gains : Word → ℤ) : Validator → Word → Bool × Word
  | .none, w => (true, w)
  | .check ok, w => (ok w, w)
  | .setGainlimit, w =>
    if gains w = -1 then (false, w)
    else (true, (w <<< 16) ||| (BitVec.ofInt 32 (gains w) &&& 0x0000ffff))
  | .getOverflowlimit, w => (true, w >>> 16)
  | .getGainlimit, w => (true, w.sshiftRight 16)

section

variable (g : Global) (u : CfgWorld) (fd : Option File) (p : EnvParams) (flags : Bitmask)

/-- The setting that the library makes of an entry. -/
def settingOf (e : ParamMap) : CfgIndex × Word :=
  (e.code, (evalValidator u.gains e.validate (p.val e.field)).2)

/-- The entry is accepted on both sides: by its validator, and by the device from this file. -/
def taken (e : ParamMap) : Bool :=
  (evalValidator u.gains e.validate (p.val e.field)).1 && fd.any (u.master = some ·) &&
    accepts g (settingOf u p e).1 (settingOf u p e).2

/-- The entries of a table that the flags select are all accepted. -/
abbrev allTaken (es : List ParamMap) : Prop :=
  ∀ e ∈ es, flags.hits e.mask = true → taken g u fd p e = true

/-- The settings that a walk through a table makes. -/
def sentParams (es : List ParamMap) : List (CfgIndex × Word) :=
  ((es.filter (flags.hits ·.mask)).takeWhile (taken g u fd p)).map (settingOf u p)

end

variable {g : Global} {u : CfgWorld} {fd : Option File} {p p' : EnvParams} {flags : Bitmask}
  {e : ParamMap} {es : List ParamMap}

theorem sentParams_cons : sentParams g u fd p flags (e :: es) =
    if flags.hits e.mask then
      if taken g u fd p e then settingOf u p e :: sentParams g u fd p flags es else []
    else sentParams g u fd p flags es := by
  unfold sentParams
  rw [List.filter_cons]
  split
  · rw [List.takeWhile_cons]
    split <;> rfl
  · rfl

theorem allTaken_cons : allTaken g u fd p flags (e :: es) ↔
    (flags.hits e.mask → taken g u fd p e) ∧ allTaken g u fd p flags es :=
  List.forall_mem_cons

/-- The settings depend on the members of the structure that the table names. -/
theorem settingOf_congr (h : p'.val e.field = p.val e.field) :
    settingOf u p' e = settingOf u p e := by
  simp only [settingOf, h]

theorem taken_congr (h : p'.val e.field = p.val e.field) :
    taken g u fd p' e = taken g u fd p e := by
  simp only [taken, settingOf, h]

theorem sentParams_congr (h : ∀ e ∈ es, p'.val e.field = p.val e.field) :
    sentParams g u fd p' flags es = sentParams g u fd p flags es := by
  induction es with
  | nil => rfl
  | cons e es ih =>
    have he := h e List.mem_cons_self
    rw [sentParams_cons, sentParams_cons, taken_congr he, settingOf_congr he,
      ih fun e' he' => h e' (List.mem_cons_of_mem e he')]

theorem allTaken_congr (h : ∀ e ∈ es, p'.val e.field = p.val e.field) :
    allTaken g u fd p' flags es ↔ allTaken g u fd p flags es :=
  forall₂_congr fun e he => by rw [taken_congr (h e he)]

/-- The settings of a walk are accepted, and their parameters stand in the order of the table. -/
theorem sentParams_accepted {op : CfgIndex × Word} (h : op ∈ sentParams g u fd p flags es) :
    accepts g op.1 op.2 := by
  obtain ⟨e, he, rfl⟩ := List.mem_map.1 h
  have he := List.mem_takeWhile_imp he
  simp only [taken, Bool.and_eq_true] at he
  exact he.2

theorem sentParams_sublist :
    ((sentParams g u fd p flags es).map Prod.fst).Sublist (es.map (·.code)) := by
  rw [sentParams, List.map_map]
  exact (((List.takeWhile_prefix _).sublist).trans List.filter_sublist).map _

/-! ## The calls -/

theorem wlp_validator {v : Validator} {w : Word} {Q : Bool × Word → CfgWorld → Prop} :
    (v.run w).wlp (cfgServe g) Q u ↔ Q (evalValidator u.gains v w) u := by
  cases v with
  | setGainlimit =>
    rw [Validator.run, wlp_perform_bind]
    constructor
    · intro h
      have h := h (u.gains w) u ⟨rfl, rfl⟩
      simp only [evalValidator]
      split <;> simp_all
    · rintro h _ _ ⟨rfl, rfl⟩
      simp only [evalValidator] at h
      split <;> simp_all
  | _ => exact Iff.rfl

/-- A setting by the library: it reaches the device from the master's file alone. -/
theorem wlp_setCfg {idx : CfgIndex} {val : Word} {Q : Bool → CfgWorld → Prop}
    (h : Q (fd.any (u.master = some ·) && accepts g idx val)
      (u.setAll g (if fd.any (u.master = some ·) && accepts g idx val then [(idx, val)] else []))) :
    (onFile fd false fun f => sys (.setCfg f idx val)).wlp (cfgServe g) Q u := by
  cases fd with
  | none => exact h
  | some f =>
    intro x u' hx
    simp only [cfgServe] at hx
    simp only [Option.any_some] at h
    split at hx
    · next hm =>
      obtain ⟨rfl, rfl⟩ := hx
      rw [setCfg_isSome]
      simp only [hm, decide_true, Bool.true_and] at h
      cases ha : accepts g idx val with
      | true => simpa [ha, CfgWorld.setAll, CfgDevice.setAll] using h
      | false =>
        have hnone : u.dev.setCfg g idx val = none := by
          rw [← Option.not_isSome_iff_eq_none, setCfg_isSome, ha]
          exact Bool.false_ne_true
        simpa [ha, CfgWorld.setAll, CfgDevice.setAll, hnone] using h
    · next hm =>
      obtain ⟨rfl, rfl⟩ := hx
      simpa [hm, CfgWorld.setAll, CfgDevice.setAll] using h

/-- What `set_param` does of an entry that is accepted, and of one that is not. -/
theorem wlp_setParam : (setParam fd e p).wlp (cfgServe g) (fun r u' =>
    (r.1 = cspiOk ↔ taken g u fd p e) ∧ r.2 = p.set e.field (settingOf u p e).2 ∧
      u' = u.setAll g (if taken g u fd p e then [settingOf u p e] else [])) u := by
  unfold setParam
  rw [wlp_bind, wlp_validator]
  rcases hv : evalValidator u.gains e.validate (p.val e.field) with ⟨ok, w⟩
  simp only [taken, settingOf, hv]
  cases ok with
  | false => exact ⟨by simp, rfl, rfl⟩
  | true =>
    refine wlp_bind.2 (wlp_setCfg ⟨?_, rfl, rfl⟩)
    simp only [Bool.true_and]
    split
    · next h => exact iff_of_true rfl h
    · next h => exact iff_of_false (by decide) h

/-- **A walk through a table** makes the settings up to the first entry that is refused. -/
theorem wlp_handleParams (hn : (es.map (·.field)).Nodup) :
    (handleParams (setParam fd) flags es p).wlp (cfgServe g) (fun r u' =>
      (r.1 = cspiOk ↔ allTaken g u fd p flags es) ∧
        (∀ f, f ∉ es.map (·.field) → r.2.val f = p.val f) ∧
        u' = u.setAll g (sentParams g u fd p flags es)) u := by
  induction es generalizing p u with
  | nil => exact ⟨by simp [allTaken], fun _ _ => rfl, rfl⟩
  | cons e es ih =>
    obtain ⟨he, hn⟩ := List.nodup_cons.1 hn
    rw [handleParams]
    cases hf : flags.hits e.mask with
    | false =>
      refine wlp_mono (ih hn) ?_
      rintro r u' ⟨hr, hframe, rfl⟩
      refine ⟨?_, fun f hf => hframe f fun h => hf (List.mem_cons_of_mem _ h), ?_⟩
      · simp [allTaken_cons, hf, hr]
      · simp [sentParams_cons, hf]
    | true =>
      refine wlp_seq wlp_setParam ?_
      rintro ⟨rc, p'⟩ u₁ ⟨hr, hp', rfl⟩
      dsimp only at hr hp' he
      have hother : ∀ f ≠ e.field, p'.val f = p.val f := fun f hne => by
        rw [hp', EnvParams.set_val_of_ne _ hne]
      have hp : ∀ e' ∈ es, p'.val e'.field = p.val e'.field := fun e' he' =>
        hother _ fun h => he (h ▸ List.mem_map_of_mem (f := (·.field)) he')
      unfold ParamResult.andThen
      cases ht : taken g u fd p e with
      | false =>
        have hrc : ¬rc = cspiOk := by simpa [ht] using hr
        rw [if_neg hrc]
        refine ⟨?_, fun f hf => hother f fun h => hf (h ▸ List.mem_cons_self), ?_⟩
        · simp [allTaken_cons, hf, ht, hrc]
        · simp [sentParams_cons, hf, ht]
      | true =>
        rw [if_pos (hr.2 ht)]
        refine wlp_mono (ih hn) ?_
        rintro r u' ⟨hr', hframe, rfl⟩
        refine ⟨?_, fun f hf => ?_, ?_⟩
        · rw [hr', allTaken_cons]
          simp only [hf, ht, imp_self, true_and]
          exact allTaken_congr hp
        · rw [List.map_cons, List.mem_cons, not_or] at hf
          rw [hframe f hf.2, hother f hf.1]
        · rw [sentParams_cons, if_pos hf, if_pos ht]
          simp only [if_true]
          exact congrArg (fun ops => u.setAll g (settingOf u p e :: ops)) (sentParams_congr hp)

/-! ## What a call does to the groups -/

/-- The settings that a call makes from the table with the groups. -/
def groupSettings (g : Global) (u : CfgWorld) (fd : Option File) (decimation : Word)
    (p : EnvParams) (flags : Bitmask) : List (CfgIndex × Word) :=
  if allTaken g u fd p flags baseSetMap ∧ flags.hits envHealth = false ∧
      flags.hits envFeature = false then
    sentParams g u fd p flags (customSetMap decimation)
  else []

/-- The call sets no member of a group. -/
def sparesGroups : SysCall → Prop
  | .setCfg _ idx _ => CfgGroup.of idx = none
  | _ => True

theorem sameGroup_bcdOffsets {grp : CfgGroup} {d : CfgDevice} {x y : Word} :
    SameGroup grp d (d.bcdOffsets x y) := by
  have hone : ∀ (d : CfgDevice) (v : Word) (i j : CfgIndex) (r : CfgRegister),
      CfgGroup.of i = none → CfgGroup.ofRegister r = none →
      SameGroup grp d (d.checkAndUpdate v i j r) := by
    intro d v i j r hi hr
    unfold CfgDevice.checkAndUpdate
    split
    · exact (sameGroup_mirror (by simp [hi])).writel (by simp [hr])
    · exact .refl d
  exact (hone _ _ _ _ _ rfl rfl).trans (hone _ _ _ _ _ rfl rfl)

/-- A call that sets no member of a group leaves the groups alone. -/
theorem sameGroup_serve {grp : CfgGroup} {d : CfgDevice} (c : SysCall) (x : SysAns c)
    (v v' : CfgWorld) (hc : sparesGroups c) (hv : cfgServe g c x v v')
    (h : SameGroup grp d v.dev) : SameGroup grp d v'.dev := by
  cases c with
  | setCfg f idx val =>
    simp only [cfgServe] at hv
    split at hv
    · obtain ⟨-, rfl⟩ := hv
      refine h.trans ?_
      dsimp only
      cases hs : v.dev.setCfg g idx val with
      | none => exact .refl _
      | some d' => exact setCfg_other hs (by simp [show CfgGroup.of idx = none from hc])
    · exact hv.2 ▸ h
  | getCfg f idx => exact hv.2 ▸ h
  | toattn w => exact hv.2 ▸ h
  | dscMessage m w =>
    obtain ⟨x, y, rfl⟩ := hv
    exact h.trans sameGroup_bcdOffsets
  | hang | fault => exact x.elim
  | _ => exact (show v' = v from hv) ▸ h

/-- What follows the table with the groups in `custom_setenvparam`. -/
def setRest (fd : Option File) (flags : Bitmask) (r : ParamResult) : LibProg ParamResult := do
  let r ← r.andThen (handleParams (setParam fd) flags coeffMap)
  let r ← r.andThen (ebppSetdscparam fd flags)
  r.andThen (ebppSetPllparam flags)

theorem sparesGroups_rest {r : ParamResult} : Only sparesGroups (setRest fd flags r) := by
  have hcoeff : ∀ e ∈ coeffMap, CfgGroup.of e.code = none := by
    intro e he
    simp only [coeffMap, List.mem_append, List.mem_map] at he
    obtain ⟨i, -, rfl⟩ | ⟨i, -, rfl⟩ | ⟨i, -, rfl⟩ := he <;> rfl
  refine only_seq (only_andThen (only_handleParams fun e he _ p => ?_)) fun _ => ?_
  · exact only_setParam (fun _ => trivial) (fun _ _ => hcoeff e he) p
  exact only_setDaemons (fun _ _ => trivial) (fun _ => trivial) (fun _ _ _ => trivial) fun _ => trivial

theorem wlp_setRest {r : ParamResult} : (setRest fd flags r).wlp (cfgServe g)
    (fun _ u' => ∀ grp, SameGroup grp u.dev u'.dev) u := by
  have hspares : Only sparesGroups (setRest fd flags r) := sparesGroups_rest
  have h := wlp_keep (I := fun v => ∀ grp, SameGroup grp u.dev v.dev) (u := u) hspares
    (fun c x v v' hc hv h grp => sameGroup_serve (g := g) c x v v' hc hv (h grp)) fun grp => .refl _
  exact wlp_mono h fun _ _ h => h.2

theorem customSetMap_trigMode (decimation : Word) :
    EnvField.trigMode ∉ (customSetMap decimation).map (·.field) := by
  have h : (customSetMap decimation).map (·.field) = (customSetMap 0).map (·.field) := rfl
  rw [h]
  decide

theorem customSetMap_fields (decimation : Word) :
    ((customSetMap decimation).map (·.field)).Nodup := by
  have h : (customSetMap decimation).map (·.field) = (customSetMap 0).map (·.field) := rfl
  rw [h]
  decide

theorem customSetMap_codes (decimation : Word) :
    ((customSetMap decimation).map (·.code)).Nodup := by
  have h : (customSetMap decimation).map (·.code) = (customSetMap 0).map (·.code) := rfl
  rw [h]
  decide

/-- The parameters that `base_setenvparam` sets are in no group. -/
theorem sentParams_base {grp : CfgGroup} {op : CfgIndex × Word}
    (h : op ∈ sentParams g u fd p flags baseSetMap) : CfgGroup.of op.1 ≠ some grp := by
  have hop : op.1 ∈ baseSetMap.map (·.code) :=
    sentParams_sublist.subset (List.mem_map_of_mem h)
  have hop : op.1 = .trigmode := List.mem_singleton.1 hop
  rw [hop]
  nofun

theorem wlp_baseSetenvparam : (baseSetenvparam fd flags p).wlp (cfgServe g) (fun r u' =>
    (r.1 = cspiOk ↔ allTaken g u fd p flags baseSetMap ∧ flags.hits envHealth = false ∧
      flags.hits envFeature = false) ∧
    (∀ f ≠ .trigMode, r.2.val f = p.val f) ∧
    u' = u.setAll g (sentParams g u fd p flags baseSetMap)) u := by
  unfold baseSetenvparam
  split
  · next h0 =>
    subst h0
    have hmask : ∀ m, Bitmask.hits 0 m = false := fun m => by simp [Bitmask.hits]
    refine ⟨iff_of_true rfl ⟨fun e _ he => ?_, hmask _, hmask _⟩, fun _ _ => rfl, ?_⟩
    · rw [hmask] at he
      cases he
    · have hnone : sentParams g u fd p 0 baseSetMap = [] := by
        rw [baseSetMap, sentParams_cons, hmask]
        rfl
      exact congrArg (u.setAll g) hnone.symm
  · refine wlp_seq (wlp_handleParams (by decide)) ?_
    rintro ⟨rc, p'⟩ u₁ ⟨hr, hframe, hu⟩
    have hframe : ∀ f ≠ .trigMode, p'.val f = p.val f := fun f hf =>
      hframe f (by simpa [baseSetMap] using hf)
    unfold ParamResult.andThen
    split
    · next hrc =>
      refine ⟨?_, hframe, hu⟩
      rw [← hr]
      simp only [show rc = cspiOk from hrc, true_and]
      cases flags.hits envHealth <;> cases flags.hits envFeature <;> decide
    · next hrc =>
      exact ⟨iff_of_false hrc fun h => hrc (hr.2 h.1), hframe, hu⟩

/-- **What a call does to the groups** are the settings that it makes of the table with them. -/
theorem wlp_setEnvparams (decimation : Word) :
    (setEnvparams fd decimation flags p).wlp (cfgServe g) (fun _ u' => ∃ d,
      (∀ grp, SameGroup grp u.dev d) ∧
      ∀ grp, SameGroup grp (d.setAll g (groupSettings g u fd decimation p flags)) u'.dev) u := by
  refine wlp_seq wlp_baseSetenvparam ?_
  rintro ⟨rc, p'⟩ u₁ ⟨hr, hframe, rfl⟩
  have hbase : ∀ grp, SameGroup grp u.dev (u.setAll g (sentParams g u fd p flags baseSetMap)).dev :=
    fun grp => setAll_other fun op hop => sentParams_base hop
  have hp : ∀ e ∈ customSetMap decimation, p'.val e.field = p.val e.field := fun e he =>
    hframe _ fun h => customSetMap_trigMode decimation (h ▸ List.mem_map_of_mem he)
  have hcustom : (ParamResult.andThen (rc, p') (handleParams (setParam fd) flags
      (customSetMap decimation))).wlp (cfgServe g) (fun _ u' => u' =
        (u.setAll g (sentParams g u fd p flags baseSetMap)).setAll g
          (groupSettings g u fd decimation p flags))
      (u.setAll g (sentParams g u fd p flags baseSetMap)) := by
    unfold ParamResult.andThen groupSettings
    by_cases hrc : rc = cspiOk
    · rw [if_pos hrc, if_pos (hr.1 hrc)]
      refine wlp_mono (wlp_handleParams (customSetMap_fields decimation)) ?_
      rintro r u' ⟨-, -, rfl⟩
      exact congrArg (CfgWorld.setAll g _) (sentParams_congr hp)
    · rw [if_neg hrc, if_neg fun h => hrc (hr.2 h)]
      rfl
  refine wlp_seq hcustom ?_
  rintro r u₂ rfl
  exact wlp_mono wlp_setRest fun _ u' h => ⟨_, hbase, h⟩

end LiberaDaq.Kernel
