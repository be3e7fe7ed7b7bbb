import LiberaDaq.Kernel.RoundTrip
import Mathlib.Tactic.IntervalCases

/-!
# Settings that are made again

A parameter is settled at a value when the mirror and the registers have what setting it to the
value would write there (`SettledAt`). The same setting then changes nothing (`setCfg_settled`). A
setting settles its own parameter, and the parameters that the tables have before it stay settled
(`settled_setCfg`, `SettledAt.setCfg`), so that the settings of a call change nothing when they are
made again; the filters get the same words as before (`setAll_again`).
-/

namespace LiberaDaq.Kernel

open LiberaDaq.Cspi

variable {g : Global} {d d' : CfgDevice} {idx i j : CfgIndex} {val v w : Word} {r : CfgRegister}
  {ops : List (CfgIndex × Word)}

/-- The mirror and the registers are the same, and the post-mortem acquisition is freezed in both or
in none. -/
structure SameConfig (d d' : CfgDevice) : Prop where
  param : d'.param = d.param
  reg : d'.reg = d.reg
  pmFreezed : d'.pmFreezed = d.pmFreezed

theorem SameConfig.refl (d : CfgDevice) : SameConfig d d := ⟨rfl, rfl, rfl⟩

theorem SameConfig.trans {d'' : CfgDevice} (h : SameConfig d d') (h' : SameConfig d' d'') :
    SameConfig d d'' :=
  ⟨h'.param.trans h.param, h'.reg.trans h.reg, h'.pmFreezed.trans h.pmFreezed⟩

/-! ## Writing what is there -/

theorem mirror_of_param (h : d.param idx = val) : d.mirror idx val = d := by
  subst h
  simp [CfgDevice.mirror]

theorem param_mirror_self : (d.mirror idx val).param idx = val := by
  simp [CfgDevice.mirror]

theorem writel_of_reg (h : d.reg r = val) : d.writel val r = d := by
  subst h
  simp [CfgDevice.writel]

/-- As `writel_of_reg`, after writes that changed nothing. -/
theorem writel_again (h : d.reg r = val) (h₀ : d' = d) : d'.writel val r = d := by
  rw [h₀, writel_of_reg h]

/-- What the trigger delay leaves of its register, and what the post-mortem mode leaves of it. -/
def delayMask : Word := 0xc000ffff

def modeMask : Word := 0xFFFF3FFF

/-- The register of the trigger delay, when the delay is set. -/
def trigdelayWord (t v : Word) : Word := (t &&& delayMask) ||| ((v &&& 0x3fff) <<< 16)

/-- The same register, when the post-mortem mode is set. -/
def pmModeWord (t v : Word) : Word := (t &&& modeMask) ||| ((v &&& 3) <<< 14)

/-- The source of the switches, when external switching is set. -/
def extswitchWord (t v : Word) : Word := if v ≠ 0 then t ||| 0x80000000 else t &&& 0x7fffffff

theorem trigdelayWord_again (t v : Word) :
    trigdelayWord (trigdelayWord t v) v = trigdelayWord t v := by
  have hfree : ((v &&& 0x3fff) <<< 16) &&& delayMask = 0#32 := by
    rw [BitVec.shiftLeft_and_distrib, BitVec.and_assoc]
    exact BitVec.and_zero
  unfold trigdelayWord
  rw [BitVec.and_or_distrib_right, hfree, BitVec.and_assoc, BitVec.and_self, BitVec.or_zero]

/-- The post-mortem mode has other bits than the trigger delay. -/
theorem trigdelayWord_pmMode {t v : Word} (w : Word) (h : t = trigdelayWord t v) :
    pmModeWord t w = trigdelayWord (pmModeWord t w) v := by
  have hmode : ((w &&& 3) <<< 14) &&& delayMask = (w &&& 3) <<< 14 := by
    rw [BitVec.shiftLeft_and_distrib, BitVec.and_assoc]
    rfl
  have hdelay : ((v &&& 0x3fff) <<< 16) &&& modeMask = (v &&& 0x3fff) <<< 16 := by
    rw [BitVec.shiftLeft_and_distrib, BitVec.and_assoc]
    rfl
  have ht : t &&& modeMask = ((t &&& modeMask) &&& delayMask) ||| ((v &&& 0x3fff) <<< 16) := by
    conv_lhs => rw [h, trigdelayWord]
    rw [BitVec.and_or_distrib_right, hdelay, BitVec.and_assoc, BitVec.and_assoc]
    rfl
  unfold trigdelayWord pmModeWord
  rw [BitVec.and_or_distrib_right, hmode]
  conv_lhs => rw [ht]
  rw [BitVec.or_assoc, BitVec.or_assoc, BitVec.or_comm ((v &&& 0x3fff) <<< 16)]

/-- The register shows the post-mortem mode already. -/
theorem pmModeWord_shown {t v : Word} (h : v &&& (3 : Word) = (t >>> 14) &&& (3 : Word)) :
    pmModeWord t v = t := by
  unfold pmModeWord modeMask
  rw [h]
  refine BitVec.eq_of_getLsbD_eq fun n hn => ?_
  interval_cases n <;> simp

theorem extswitchWord_again (t v : Word) :
    extswitchWord (extswitchWord t v) v = extswitchWord t v := by
  unfold extswitchWord
  split
  · rw [BitVec.or_assoc, BitVec.or_self]
  · rw [BitVec.and_assoc, BitVec.and_self]

/-! ## SettledAt parameters -/

/-- The register that a setting writes besides those of a group, and the word that it writes. -/
def ownRegister (d : CfgDevice) : CfgIndex → Word → Option (CfgRegister × Word)
  | .xoffset, v => some (.faOffset 0, v + d.param .bcdXoffset)
  | .yoffset, v => some (.faOffset 1, v + d.param .bcdYoffset)
  | .qoffset, v => some (.faOffset 2, v)
  | .kx, v => some (.faOffset 3, v)
  | .ky, v => some (.faOffset 4, v)
  | .extswitch, v => some (.dscSwSource, extswitchWord (d.reg .dscSwSource) v)
  | .swdelay, v => some (.dscSwDelay, v)
  | .ddcMaflength, v => some (.ddcMafLength, v)
  | .ddcMafdelay, v => some (.ddcMafDelay, v)
  | .trigdelay, v => some (.tTrigDelay, trigdelayWord (d.reg .tTrigDelay) v)
  | .sr .enable, v => some (.faEnable, v)
  | .sr .averagingStop, v => some (.faAveStop, v &&& 0x1F)
  | .sr .averageWindow, v => some (.faAveWin, v &&& 0x1F)
  | .sr .start, v => some (.faStart, v &&& 0x1F)
  | .sr .window, v => some (.faWindow, v &&& 0x7F)
  | _, _ => none

/-- What the mirror holds after a setting. -/
def mirrorEntry (g : Global) : CfgIndex → Word → Option Word
  | .ddcMaflength, _ | .ddcMafdelay, _ => none
  | .ilkstatus, _ => some 0
  | idx, v => some (mirrored g idx v)

/-- The device has what setting the parameter to the value would write. Spike removal is enabled
with `1`, which is what the setting of its window writes as well. -/
structure SettledAt (g : Global) (d : CfgDevice) (idx : CfgIndex) (v : Word) : Prop where
  mirror : ∀ w, mirrorEntry g idx v = some w → d.param idx = w
  own : ∀ r w, ownRegister d idx v = some (r, w) → d.reg r = w
  group : ∀ grp, idx = CfgGroup.last grp → AgreesOn g grp d
  thawed : idx = .pm .overflowDur → d.pmFreezed = false
  enabled : idx = .sr .averageWindow → d.param (.sr .enable) ≠ 0 → d.reg .faEnable = 1
  bool : idx = .sr .enable → v = 0 ∨ v = 1

theorem commitIlk_of_agrees (h : AgreesOn g .ilk d) : d.commitIlk g = d := by
  have hshown : ∀ m, d.shown (.ilk m) = encode g (.ilk m) (d.param (.ilk m)) := fun m =>
    (agreesOn_iff.1 h _ rfl).symm
  refine writel_again (hshown .mode) (writel_again (hshown .overflowDur)
    (writel_again (hshown .overflowLimit) (writel_again (hshown .gainLimit)
      (writel_again (hshown .yhigh) (writel_again (hshown .ylow) (writel_again (hshown .xhigh)
        (writel_again (hshown .xlow) rfl)))))))

theorem commitPm_of_agrees (h : AgreesOn g .pm d) : d.commitPm g = d := by
  have hshown : ∀ m, d.shown (.pm m) = encode g (.pm m) (d.param (.pm m)) := fun m =>
    (agreesOn_iff.1 h _ rfl).symm
  have hmode : d.reg .tTrigDelay = pmModeWord (d.reg .tTrigDelay) (d.param (.pm .mode)) :=
    (pmModeWord_shown (hshown .mode).symm).symm
  refine writel_again (hshown .overflowDur) (writel_again (hshown .overflowLimit)
    (writel_again (hshown .maxYLimit) (writel_again (hshown .minYLimit)
      (writel_again (hshown .maxXLimit) (writel_again (hshown .minXLimit)
        (writel_again hmode rfl))))))

theorem sameConfig_writeCoeffs {c : CfgPort} {vals : List Word} :
    SameConfig d (d.writeCoeffs c vals) := by
  have hpush : ∀ d' : CfgDevice, SameConfig d d' →
      SameConfig d (vals.foldl (fun d v => d.push v c) d') := by
    induction vals with
    | nil => exact fun _ h => h
    | cons v vals ih => exact fun d' h => ih (d'.push v c) ⟨h.param, h.reg, h.pmFreezed⟩
  exact hpush _ ⟨rfl, rfl, rfl⟩

theorem setAverageWindow_of_settled (h : SettledAt g d (.sr .averageWindow) v) :
    d.setAverageWindow v = d := by
  have hmirror : d.mirror (.sr .averageWindow) v = d := mirror_of_param (h.mirror _ rfl)
  have hwindow : d.reg .faAveWin = v &&& 0x1F := h.own _ _ rfl
  simp only [CfgDevice.setAverageWindow, hmirror]
  by_cases henable : d.param (.sr .enable) ≠ 0
  · rw [if_pos henable, if_pos henable]
    have hone : d.reg .faEnable = 1 := h.enabled rfl henable
    -- What is written in between to the enabling register does not last.
    have hreg : ((d.writel 0 .faEnable).writel (v &&& 0x1F) .faAveWin).writel 1 .faEnable =
        (d.writel (v &&& 0x1F) .faAveWin).writel 1 .faEnable := by
      simp only [CfgDevice.writel, CfgDevice.mk.injEq, true_and, and_true]
      funext r
      by_cases hr : r = .faEnable
      · simp [hr]
      · simp [Function.update_apply, hr]
    rw [hreg, writel_of_reg hwindow, writel_of_reg hone]
  · rw [if_neg henable, if_neg henable, writel_of_reg hwindow]

/-- **A settled parameter** is not changed by the same setting, and neither is any other. -/
theorem setCfg_settled (hs : SettledAt g d idx val) (h : d.setCfg g idx val = some d') :
    SameConfig d d' := by
  have hmirror : ∀ w, mirrorEntry g idx val = some w → d.mirror idx w = d := fun w hw =>
    mirror_of_param (hs.mirror w hw)
  have hown : ∀ r w, ownRegister d idx val = some (r, w) → d.writel w r = d := fun r w hw =>
    writel_of_reg (hs.own r w hw)
  have hsame : ∀ {d₁}, d₁ = d → some d₁ = some d' → SameConfig d d' := fun h₁ h₂ =>
    Option.some.inj h₂ ▸ h₁ ▸ .refl d
  cases idx with
  | ilk m =>
    cases m with
    | overflowLimit => exact hsame (hmirror _ rfl) (setOverflowLimit_eq h ▸ rfl)
    | overflowDur => exact hsame (hmirror _ rfl) (Option.ite_none_right_eq_some.1 h).2
    | gainLimit =>
      have hcommit : (d.mirror (.ilk .gainLimit) val).commitIlk g = d := by
        rw [hmirror val rfl]
        exact commitIlk_of_agrees (hs.group .ilk rfl)
      exact hsame hcommit h
    | _ => exact hsame (hmirror _ rfl) h
  | pm m =>
    cases m with
    | overflowLimit => exact hsame (hmirror _ rfl) (setOverflowLimit_eq h ▸ rfl)
    | overflowDur =>
      have h := (Option.ite_none_right_eq_some.1 h).2
      rw [hmirror val rfl, commitPm_of_agrees (hs.group .pm rfl)] at h
      exact Option.some.inj h ▸ ⟨rfl, rfl, (hs.thawed rfl).symm⟩
    | _ => exact hsame (hmirror _ rfl) h
  | sr m =>
    cases m with
    | cspiEnable => exact hsame (hmirror _ rfl) h
    | averageWindow => exact hsame (setAverageWindow_of_settled hs) h
    | _ => exact hsame (writel_again (hs.own _ _ rfl) (hmirror _ rfl)) h
  | sp m => cases m <;> exact hsame (hmirror _ rfl) h
  | xoffset | yoffset | qoffset | kx | ky | swdelay =>
    exact hsame (writel_again (hs.own _ _ rfl) (hmirror _ rfl)) h
  | trigmode | ilkstatus | pmoffset | pmdec => exact hsame (hmirror _ rfl) h
  | trigdelay => exact hsame (writel_again (hs.own _ _ rfl) (hmirror _ rfl)) h
  | extswitch =>
    have hset : d.setExtswitch val = d :=
      (congrArg (CfgDevice.mirror · .extswitch val) (hown _ _ rfl)).trans (hmirror _ rfl)
    exact hsame hset h
  | ddcMaflength | ddcMafdelay => exact hsame (hown _ _ rfl) h
  | notch1 n | notch2 n | polyphaseFir n =>
    simp only [CfgDevice.setCfg, CfgDevice.setSpecific, CfgDevice.setCoeff, hmirror val rfl] at h
    split at h
    · exact Option.some.inj h ▸ sameConfig_writeCoeffs
    · exact hsame rfl h
  | _ => cases h

/-! ## The registers of a parameter -/

/-- The parameter that a register shows; that of a group, for its last member. -/
def CfgRegister.home : CfgRegister → Option CfgIndex
  | .faOffset 0 => some .xoffset
  | .faOffset 1 => some .yoffset
  | .faOffset 2 => some .qoffset
  | .faOffset 3 => some .kx
  | .faOffset 4 => some .ky
  | .ilkControl | .ilkXlow | .ilkXhigh | .ilkYlow | .ilkYhigh | .dscIlkGainLimit
  | .dscIlkOverflowLimit | .dscIlkOverflowDur => some (.ilk .gainLimit)
  | .pmXlow | .pmXhigh | .pmYlow | .pmYhigh | .dscPmOverflowLimit | .dscPmOverflowDur =>
    some (.pm .overflowDur)
  | .tTrigDelay => some .trigdelay
  | .dscSwSource => some .extswitch
  | .dscSwDelay => some .swdelay
  | .ddcMafLength => some .ddcMaflength
  | .ddcMafDelay => some .ddcMafdelay
  | .faEnable => some (.sr .enable)
  | .faAveStop => some (.sr .averagingStop)
  | .faAveWin => some (.sr .averageWindow)
  | .faStart => some (.sr .start)
  | .faWindow => some (.sr .window)
  | .adcMax | .faNsums | .faSumsumsLsw | .faSumsumsMsw | .fpgaFeatureCustomer => none

theorem home_of_own (h : ownRegister d idx v = some (r, w)) : r.home = some idx := by
  cases idx with
  | sr m => cases m <;> cases h <;> rfl
  | ilk m | pm m | sp m => cases h
  | _ => cases h <;> rfl

/-- A setting keeps the registers of the other parameters, but for two that have a guest: the
post-mortem mode stands beside the trigger delay, and the window of the spike removal is set while
it is disabled. -/
theorem reg_setCfg_of_home (h : d.setCfg g idx val = some d') (hr : r.home ≠ some idx)
    (hpm : idx = .pm .overflowDur → r ≠ .tTrigDelay)
    (hwin : idx = .sr .averageWindow → r ≠ .faEnable) : d'.reg r = d.reg r := by
  have hne : ∀ {r'}, CfgRegister.home r' = some idx → r ≠ r' := fun h' e => hr (e ▸ h')
  have hone : ∀ {d₁ : CfgDevice} {r' w}, CfgRegister.home r' = some idx →
      (d₁.writel w r').reg r = d₁.reg r := fun h' => reg_writel_of_ne (hne h')
  cases idx with
  | ilk m =>
    cases m with
    | overflowLimit => exact setOverflowLimit_eq h ▸ rfl
    | overflowDur =>
      obtain ⟨-, h⟩ := Option.ite_none_right_eq_some.1 h
      exact Option.some.inj h ▸ rfl
    | gainLimit =>
      have h : (d.mirror (.ilk .gainLimit) val).commitIlk g = d' := Option.some.inj h
      rw [← h]
      simp only [CfgDevice.commitIlk]
      rw [hone rfl, hone rfl, hone rfl, hone rfl, hone rfl, hone rfl, hone rfl, hone rfl]
      rfl
    | _ => exact Option.some.inj h ▸ rfl
  | pm m =>
    cases m with
    | overflowLimit => exact setOverflowLimit_eq h ▸ rfl
    | overflowDur =>
      obtain ⟨-, h⟩ := Option.ite_none_right_eq_some.1 h
      rw [← Option.some.inj h]
      simp only [CfgDevice.commitPm]
      rw [hone rfl, hone rfl, hone rfl, hone rfl, hone rfl, hone rfl, reg_writel_of_ne (hpm rfl)]
      rfl
    | _ => exact Option.some.inj h ▸ rfl
  | sr m =>
    cases m with
    | cspiEnable => exact Option.some.inj h ▸ rfl
    | averageWindow =>
      rw [← Option.some.inj h]
      simp only [CfgDevice.setAverageWindow]
      split
      · rw [reg_writel_of_ne (hwin rfl), hone rfl, reg_writel_of_ne (hwin rfl)]
        rfl
      · rw [hone rfl]
        rfl
    | _ => exact Option.some.inj h ▸ hone rfl
  | sp m => cases m <;> exact Option.some.inj h ▸ rfl
  | xoffset | yoffset | qoffset | kx | ky | swdelay | ddcMaflength | ddcMafdelay =>
    exact Option.some.inj h ▸ hone rfl
  | trigmode | ilkstatus | pmoffset | pmdec => exact Option.some.inj h ▸ rfl
  | trigdelay => exact Option.some.inj h ▸ hone rfl
  | extswitch =>
    have h : d.setExtswitch val = d' := Option.some.inj h
    exact h ▸ hone rfl
  | notch1 n | notch2 n | polyphaseFir n =>
    simp only [CfgDevice.setCfg, CfgDevice.setSpecific, CfgDevice.setCoeff] at h
    split at h
    · rw [← Option.some.inj h, sameConfig_writeCoeffs.reg]
      rfl
    · exact Option.some.inj h ▸ rfl
  | _ => cases h

/-- Only the last setting of the post-mortem group thaws the acquisition. -/
theorem pmFreezed_setCfg (h : d.setCfg g idx val = some d') (hi : idx ≠ .pm .overflowDur) :
    d'.pmFreezed = d.pmFreezed := by
  cases idx with
  | ilk m =>
    cases m with
    | overflowLimit => exact setOverflowLimit_eq h ▸ rfl
    | overflowDur =>
      obtain ⟨-, h⟩ := Option.ite_none_right_eq_some.1 h
      exact Option.some.inj h ▸ rfl
    | _ => exact Option.some.inj h ▸ rfl
  | pm m =>
    cases m with
    | overflowLimit => exact setOverflowLimit_eq h ▸ rfl
    | overflowDur => exact absurd rfl hi
    | _ => exact Option.some.inj h ▸ rfl
  | sr m =>
    cases m with
    | averageWindow =>
      rw [← Option.some.inj h]
      simp only [CfgDevice.setAverageWindow]
      split <;> rfl
    | _ => exact Option.some.inj h ▸ rfl
  | sp m => cases m <;> exact Option.some.inj h ▸ rfl
  | notch1 n | notch2 n | polyphaseFir n =>
    simp only [CfgDevice.setCfg, CfgDevice.setSpecific, CfgDevice.setCoeff] at h
    split at h
    · rw [← Option.some.inj h, sameConfig_writeCoeffs.pmFreezed]
      rfl
    · exact Option.some.inj h ▸ rfl
  | mcpll | scpll | featureCustomer | featureItech | dfa | decDdc | bcdXoffset | bcdYoffset | maxAdc
  | averageSum => cases h
  | _ => exact Option.some.inj h ▸ rfl

/-! ## One setting -/

theorem param_setCfg_self (h : d.setCfg g idx val = some d') (hw : mirrorEntry g idx val = some w) :
    d'.param idx = w := by
  have hvalue : readable idx = true → idx ≠ .ilkstatus → d'.value idx = mirrored g idx val :=
    value_setCfg_self h
  cases idx with
  | ilkstatus =>
    cases hw
    have h : d.mirror .ilkstatus 0 = d' := Option.some.inj h
    rw [← h, param_mirror_self]
  | ddcMaflength | ddcMafdelay => cases hw
  | notch1 n | notch2 n | polyphaseFir n =>
    cases hw
    simp only [CfgDevice.setCfg, CfgDevice.setSpecific, CfgDevice.setCoeff] at h
    split at h
    · rw [← Option.some.inj h, param_writeCoeffs]
      exact Function.update_self _ _ _
    · exact Option.some.inj h ▸ Function.update_self _ _ _
  | mcpll | scpll | featureCustomer | featureItech | dfa | decDdc | bcdXoffset | bcdYoffset | maxAdc
  | averageSum => cases h
  | _ =>
    cases hw
    exact hvalue rfl (by rintro ⟨⟩)

theorem own_setCfg (h : d.setCfg g idx val = some d') (hw : ownRegister d' idx val = some (r, w)) :
    d'.reg r = w := by
  have hoffset : ∀ {j}, j ≠ idx → d'.param j = d.param j := fun hj => param_setCfg_of_ne h hj
  cases idx with
  | sr m =>
    cases m with
    | cspiEnable => cases hw
    | averageWindow =>
      cases hw
      rw [← Option.some.inj h]
      simp only [CfgDevice.setAverageWindow]
      split
      · rw [reg_writel_of_ne (by rintro ⟨⟩), reg_writel_self]
      · rw [reg_writel_self]
    | _ =>
      cases hw
      exact Option.some.inj h ▸ reg_writel_self
  | ilk m | pm m | sp m => cases hw
  | xoffset | yoffset =>
    cases hw
    rw [hoffset (by rintro ⟨⟩)]
    exact Option.some.inj h ▸ reg_writel_self
  | trigdelay =>
    cases hw
    have h : d.setTrigdelay val = d' := Option.some.inj h
    rw [← h]
    have hreg : (d.setTrigdelay val).reg .tTrigDelay = trigdelayWord (d.reg .tTrigDelay) val :=
      reg_writel_self
    rw [hreg, trigdelayWord_again]
  | extswitch =>
    cases hw
    have h : d.setExtswitch val = d' := Option.some.inj h
    have hreg : d'.reg = (d.writel (extswitchWord (d.reg .dscSwSource) val) .dscSwSource).reg :=
      h ▸ rfl
    rw [hreg, reg_writel_self, extswitchWord_again]
  | qoffset | kx | ky | swdelay | ddcMaflength | ddcMafdelay =>
    cases hw
    exact Option.some.inj h ▸ reg_writel_self
  | _ => cases hw

/-- **A setting settles its parameter.** -/
theorem settled_setCfg (h : d.setCfg g idx val = some d')
    (hb : idx = .sr .enable → val = 0 ∨ val = 1) : SettledAt g d' idx val where
  mirror _ hw := param_setCfg_self h hw
  own _ _ hw := own_setCfg h hw
  group := by
    rintro grp rfl
    exact setCfg_last h
  thawed := by
    rintro rfl
    obtain ⟨-, h⟩ := Option.ite_none_right_eq_some.1 h
    exact Option.some.inj h ▸ rfl
  enabled := by
    rintro rfl henable
    rw [param_setCfg_of_ne h (by nofun)] at henable
    have henable' : (d.mirror (.sr .averageWindow) val).param (.sr .enable) ≠ 0 := henable
    rw [← Option.some.inj h]
    simp only [CfgDevice.setAverageWindow, if_pos henable']
    exact reg_writel_self
  bool := hb

/-- A parameter that the tables may have after another one, and that leaves it settled: the last
member of a group comes after the others, spike removal is enabled before its window is set, and the
coefficients of a filter go up. -/
def follows : CfgIndex → CfgIndex → Bool
  | .ilk .gainLimit, .ilk _ | .pm .overflowDur, .pm _ | .sr .averageWindow, .sr .enable => false
  | .notch1 i, .notch1 j | .notch2 i, .notch2 j => i < j
  | .polyphaseFir i, .polyphaseFir j => i < j
  | i, j => i ≠ j

theorem ne_of_follows (h : follows i j = true) : j ≠ i := by
  rintro rfl
  unfold follows at h
  split at h <;> simp_all

theorem group_of_follows {grp : CfgGroup} (h : follows grp.last j = true) :
    CfgGroup.of j ≠ some grp := by
  intro hg
  cases grp with
  | ilk =>
    cases j with
    | ilk m => cases h
    | _ => cases hg
  | pm =>
    cases j with
    | pm m => cases h
    | _ => cases hg

theorem settled_enable (hs : SettledAt g d (.sr .enable) v)
    (h : d.setCfg g (.sr .averageWindow) val = some d') : d'.reg .faEnable = v := by
  have hreg : d.reg .faEnable = v := hs.own _ _ rfl
  have hparam : (d.mirror (.sr .averageWindow) val).param (.sr .enable) = v :=
    (param_mirror_of_ne (by rintro ⟨⟩)).trans (hs.mirror _ rfl)
  rw [← Option.some.inj h]
  simp only [CfgDevice.setAverageWindow, hparam]
  rcases hs.bool rfl with rfl | rfl
  · rw [if_neg (by decide), reg_writel_of_ne (by rintro ⟨⟩)]
    exact hreg
  · rw [if_pos (by decide), reg_writel_self]

theorem settled_trigdelay (hs : SettledAt g d .trigdelay v)
    (h : d.setCfg g (.pm .overflowDur) val = some d') :
    d'.reg .tTrigDelay = trigdelayWord (d'.reg .tTrigDelay) v := by
  have hreg : d.reg .tTrigDelay = trigdelayWord (d.reg .tTrigDelay) v := hs.own _ _ rfl
  obtain ⟨-, h⟩ := Option.ite_none_right_eq_some.1 h
  have hmode : d'.reg .tTrigDelay = pmModeWord (d.reg .tTrigDelay)
      ((d.mirror (.pm .overflowDur) val).param (.pm .mode)) := by
    rw [← Option.some.inj h]
    simp only [CfgDevice.commitPm]
    rw [reg_writel_of_ne (by nofun), reg_writel_of_ne (by nofun), reg_writel_of_ne (by nofun),
      reg_writel_of_ne (by nofun), reg_writel_of_ne (by nofun), reg_writel_of_ne (by nofun),
      reg_writel_self]
    rfl
  rw [hmode]
  exact trigdelayWord_pmMode _ hreg

theorem ownRegister_congr (hx : idx = .xoffset → d'.param .bcdXoffset = d.param .bcdXoffset)
    (hy : idx = .yoffset → d'.param .bcdYoffset = d.param .bcdYoffset)
    (hr : ∀ r, r.home = some idx → d'.reg r = d.reg r) :
    ownRegister d' idx v = ownRegister d idx v := by
  cases idx with
  | xoffset => simp only [ownRegister, hx rfl]
  | yoffset => simp only [ownRegister, hy rfl]
  | extswitch => simp only [ownRegister, hr .dscSwSource rfl]
  | trigdelay => simp only [ownRegister, hr .tTrigDelay rfl]
  | sr m => cases m <;> rfl
  | _ => rfl

/-- **A parameter stays settled** when one that follows it is set. -/
theorem SettledAt.setCfg (hs : SettledAt g d i v) (h : d.setCfg g j val = some d')
    (hj : follows i j = true) : SettledAt g d' i v where
  mirror w hw := (param_setCfg_of_ne h (ne_of_follows hj).symm).trans (hs.mirror w hw)
  own r w hw := by
    by_cases hdelay : i = .trigdelay ∧ j = .pm .overflowDur
    · obtain ⟨rfl, rfl⟩ := hdelay
      cases hw
      exact settled_trigdelay hs h
    by_cases henable : i = .sr .enable ∧ j = .sr .averageWindow
    · obtain ⟨rfl, rfl⟩ := henable
      cases hw
      exact settled_enable hs h
    have hkeep : ∀ r', CfgRegister.home r' = some i → d'.reg r' = d.reg r' := by
      refine fun r' hr' => reg_setCfg_of_home h (fun e => ?_) (fun e e' => ?_) fun e e' => ?_
      · exact ne_of_follows hj (Option.some.inj (e.symm.trans hr'))
      · subst e'
        exact hdelay ⟨(Option.some.inj hr').symm, e⟩
      · subst e'
        exact henable ⟨(Option.some.inj hr').symm, e⟩
    rw [hkeep r (home_of_own hw)]
    have hbcd : j ≠ .bcdXoffset ∧ j ≠ .bcdYoffset := by
      constructor <;> (rintro rfl; cases h)
    rw [ownRegister_congr (fun _ => param_setCfg_of_ne h hbcd.1.symm)
      (fun _ => param_setCfg_of_ne h hbcd.2.symm) hkeep] at hw
    exact hs.own r w hw
  group := by
    rintro grp rfl
    exact (setCfg_other h (group_of_follows hj)).agreesOn_iff.2 (hs.group grp rfl)
  thawed := by
    rintro rfl
    rw [pmFreezed_setCfg h (ne_of_follows hj)]
    exact hs.thawed rfl
  enabled := by
    rintro rfl henable
    have hne : j ≠ .sr .enable := by
      rintro rfl
      cases hj
    rw [param_setCfg_of_ne h hne.symm] at henable
    have hreg : d'.reg .faEnable = d.reg .faEnable :=
      reg_setCfg_of_home h (fun e => hne (Option.some.inj e).symm) (fun _ => by nofun)
        fun e => absurd e (ne_of_follows hj)
    exact hreg.trans (hs.enabled rfl henable)
  bool := hs.bool

/-- What makes a parameter settled is configuration. -/
theorem SettledAt.congr (hs : SettledAt g d i v) (h : SameConfig d d') : SettledAt g d' i v where
  mirror w hw := h.param ▸ hs.mirror w hw
  own r w hw := by
    rw [ownRegister_congr (fun _ => congrFun h.param _) (fun _ => congrFun h.param _)
      fun r _ => congrFun h.reg r] at hw
    exact h.reg ▸ hs.own r w hw
  group grp hgrp := by
    have hsame : SameGroup grp d d' := fun j _ => ⟨h.param ▸ rfl, by
      unfold CfgDevice.shown
      rw [h.reg]⟩
    exact hsame.agreesOn_iff.2 (hs.group grp hgrp)
  thawed hi := h.pmFreezed.trans (hs.thawed hi)
  enabled hi := by
    rw [h.param, h.reg]
    exact hs.enabled hi
  bool := hs.bool

/-- The offsets that the DSC server reports are added to those that are set. -/
theorem SettledAt.checkAndUpdate {b k : CfgIndex} {x : Word} (hs : SettledAt g d i v) (hi : i ≠ b)
    (hb : b = .bcdXoffset ∧ k = .xoffset ∧ r = .faOffset 0 ∨
      b = .bcdYoffset ∧ k = .yoffset ∧ r = .faOffset 1) :
    SettledAt g (d.checkAndUpdate x b k r) i v := by
  unfold CfgDevice.checkAndUpdate
  split
  · next hx =>
    have hparam : ∀ j, j ≠ b →
        ((d.mirror b x).writel (x + d.param k) r).param j = d.param j := fun j =>
      param_mirror_of_ne
    have hreg : ∀ r', r' ≠ r → ((d.mirror b x).writel (x + d.param k) r).reg r' = d.reg r' :=
      fun r' => reg_writel_of_ne
    have hhome : r.home = some k := by
      obtain ⟨-, rfl, rfl⟩ | ⟨-, rfl, rfl⟩ := hb <;> rfl
    refine ⟨fun w hw => (hparam i hi).trans (hs.mirror w hw), fun r' w hw => ?_, fun grp hgrp => ?_,
      hs.thawed, fun hw he => ?_, hs.bool⟩
    · by_cases hik : i = k
      · subst hik
        obtain ⟨rfl, rfl, rfl⟩ | ⟨rfl, rfl, rfl⟩ := hb
        all_goals
          cases hw
          rw [reg_writel_self, hs.mirror v rfl, BitVec.add_comm, param_writel, param_mirror_self]
      · have hne : ∀ r', CfgRegister.home r' = some i → r' ≠ r := by
          rintro r' hr' rfl
          exact hik (Option.some.inj (hr'.symm.trans hhome))
        rw [hreg r' (hne r' (home_of_own hw))]
        rw [ownRegister_congr (fun h => hparam _ ?_) (fun h => hparam _ ?_)
          fun r' hr' => hreg r' (hne r' hr')] at hw
        · exact hs.own r' w hw
        · rintro rfl
          obtain ⟨-, rfl, -⟩ | ⟨hno, -, -⟩ := hb
          · exact hik h
          · cases hno
        · rintro rfl
          obtain ⟨hno, -, -⟩ | ⟨-, rfl, -⟩ := hb
          · cases hno
          · exact hik h
    · have hsame : SameGroup grp d ((d.mirror b x).writel (x + d.param k) r) := by
        obtain ⟨rfl, rfl, rfl⟩ | ⟨rfl, rfl, rfl⟩ := hb
        all_goals exact (sameGroup_mirror (by nofun)).writel (by nofun)
      exact hsame.agreesOn_iff.2 (hs.group grp hgrp)
    · rw [hparam _ (by obtain ⟨rfl, -, -⟩ | ⟨rfl, -, -⟩ := hb <;> nofun)] at he
      rw [hreg _ (by obtain ⟨-, -, rfl⟩ | ⟨-, -, rfl⟩ := hb <;> nofun)]
      exact hs.enabled hw he
  · exact hs

theorem SettledAt.bcdOffsets {x y : Word} (hs : SettledAt g d i v) (hi : accepts g i v = true) :
    SettledAt g (d.bcdOffsets x y) i v := by
  have hne : i ≠ .bcdXoffset ∧ i ≠ .bcdYoffset := by
    constructor <;> (rintro rfl; cases hi)
  exact (hs.checkAndUpdate hne.1 (.inl ⟨rfl, rfl, rfl⟩)).checkAndUpdate hne.2
    (.inr ⟨rfl, rfl, rfl⟩)

/-! ## The words to the filters -/

/-- The words that a setting sends, when the mirror is that of the device: after the last
coefficient, those of its filter. -/
def portWords (g : Global) (d : CfgDevice) : CfgIndex → List (CfgPort × Word)
  | .notch1 i =>
    if i.val = notchMax - 1 then
      (.faFifoReset, 1) :: (List.ofFn fun i => d.param (.notch1 i)).map (Prod.mk .faNotch1)
    else []
  | .notch2 i =>
    if i.val = notchMax - 1 then
      (.faFifoReset, 1) :: (List.ofFn fun i => d.param (.notch2 i)).map (Prod.mk .faNotch2)
    else []
  | .polyphaseFir i =>
    if i.val + 1 = g.numDfir then
      (.faFifoReset, 1) :: (d.firCoeffs g.numDfir).map (Prod.mk .faPolyphaseFir)
    else []
  | _ => []

theorem sent_writeCoeffs {c : CfgPort} {vals : List Word} : (d.writeCoeffs c vals).sent =
    d.sent ++ (.faFifoReset, 1) :: vals.map (Prod.mk c) := by
  have hpush : ∀ d : CfgDevice, (vals.foldl (fun d v => d.push v c) d).sent =
      d.sent ++ vals.map (Prod.mk c) := by
    induction vals with
    | nil => exact fun d => (List.append_nil _).symm
    | cons v vals ih =>
      intro d
      rw [List.foldl_cons, ih, List.map_cons, List.append_cons]
      rfl
  rw [CfgDevice.writeCoeffs, hpush, List.append_cons]
  rfl

/-- A setting sends the words that the mirror has afterwards. -/
theorem sent_setCfg (h : d.setCfg g idx val = some d') :
    d'.sent = d.sent ++ portWords g d' idx := by
  cases idx with
  | ilk m =>
    cases m with
    | overflowLimit =>
      rw [setOverflowLimit_eq h]
      exact (List.append_nil _).symm
    | overflowDur =>
      obtain ⟨-, h⟩ := Option.ite_none_right_eq_some.1 h
      exact Option.some.inj h ▸ (List.append_nil _).symm
    | _ => exact Option.some.inj h ▸ (List.append_nil _).symm
  | pm m =>
    cases m with
    | overflowLimit =>
      rw [setOverflowLimit_eq h]
      exact (List.append_nil _).symm
    | overflowDur =>
      obtain ⟨-, h⟩ := Option.ite_none_right_eq_some.1 h
      exact Option.some.inj h ▸ (List.append_nil _).symm
    | _ => exact Option.some.inj h ▸ (List.append_nil _).symm
  | sr m =>
    cases m with
    | averageWindow =>
      refine Eq.trans ?_ (List.append_nil _).symm
      rw [← Option.some.inj h]
      simp only [CfgDevice.setAverageWindow]
      split <;> rfl
    | _ => exact Option.some.inj h ▸ (List.append_nil _).symm
  | sp m => cases m <;> exact Option.some.inj h ▸ (List.append_nil _).symm
  | notch1 n | notch2 n | polyphaseFir n =>
    simp only [CfgDevice.setCfg, CfgDevice.setSpecific, CfgDevice.setCoeff] at h
    simp only [portWords]
    split at h
    · next hlast =>
      rw [if_pos hlast, ← Option.some.inj h, sent_writeCoeffs]
      simp only [CfgDevice.firCoeffs, param_writeCoeffs]
      rfl
    · next hlast =>
      rw [if_neg hlast, List.append_nil]
      exact Option.some.inj h ▸ rfl
  | mcpll | scpll | featureCustomer | featureItech | dfa | decDdc | bcdXoffset | bcdYoffset | maxAdc
  | averageSum => cases h
  | _ => exact Option.some.inj h ▸ (List.append_nil _).symm

/-- Nothing that follows the last coefficient of a filter is one of those that were sent. -/
theorem portWords_congr (h : ∀ j, follows i j = false → d'.param j = d.param j) :
    portWords g d' i = portWords g d i := by
  cases i with
  | notch1 i =>
    simp only [portWords]
    split
    · next hi =>
      have hall : ∀ k : Fin notchMax, d'.param (.notch1 k) = d.param (.notch1 k) := fun k =>
        h _ (decide_eq_false (by rw [Fin.lt_def]; omega))
      simp only [hall]
    · rfl
  | notch2 i =>
    simp only [portWords]
    split
    · next hi =>
      have hall : ∀ k : Fin notchMax, d'.param (.notch2 k) = d.param (.notch2 k) := fun k =>
        h _ (decide_eq_false (by rw [Fin.lt_def]; omega))
      simp only [hall]
    · rfl
  | polyphaseFir i =>
    simp only [portWords]
    split
    · next hi =>
      have hall : d'.firCoeffs g.numDfir = d.firCoeffs g.numDfir := by
        refine List.map_congr_left fun k hk => h _ (decide_eq_false ?_)
        obtain ⟨n, hn, rfl⟩ := List.mem_take_iff_getElem.1 hk
        rw [List.getElem_finRange, Fin.lt_def, Fin.val_cast]
        dsimp only
        omega
      rw [hall]
    · rfl
  | _ => rfl

/-! ## Lists of settings -/

/-- The settings are accepted, each of them follows those before it, and spike removal is enabled
with `0` or `1`. -/
structure Orderly (g : Global) (ops : List (CfgIndex × Word)) : Prop where
  accepted : ∀ op ∈ ops, accepts g op.1 op.2 = true
  order : (ops.map Prod.fst).Pairwise fun i j => follows i j = true
  bool : ∀ op ∈ ops, op.1 = .sr .enable → op.2 = 0 ∨ op.2 = 1

theorem Orderly.cons {op : CfgIndex × Word} (h : Orderly g (op :: ops)) :
    accepts g op.1 op.2 = true ∧ (∀ op' ∈ ops, follows op.1 op'.1 = true) ∧
      (op.1 = .sr .enable → op.2 = 0 ∨ op.2 = 1) ∧ Orderly g ops := by
  obtain ⟨ha, hacc⟩ := List.forall_mem_cons.1 h.accepted
  obtain ⟨hb, hbool⟩ := List.forall_mem_cons.1 h.bool
  obtain ⟨ho, horder⟩ := List.pairwise_cons.1 h.order
  exact ⟨ha, fun op' hop' => ho _ (List.mem_map_of_mem hop'), hb, ⟨hacc, horder, hbool⟩⟩

theorem setAll_cons {op : CfgIndex × Word} :
    d.setAll g (op :: ops) = ((d.setCfg g op.1 op.2).getD d).setAll g ops := rfl

theorem SettledAt.setAll (hs : SettledAt g d i v) (h : ∀ op ∈ ops, follows i op.1 = true) :
    SettledAt g (d.setAll g ops) i v := by
  induction ops generalizing d with
  | nil => exact hs
  | cons op ops ih =>
    obtain ⟨hop, h⟩ := List.forall_mem_cons.1 h
    rw [setAll_cons]
    refine ih ?_ h
    cases hset : d.setCfg g op.1 op.2 with
    | none => exact hs
    | some d' => exact hs.setCfg hset hop

/-- Orderly settings settle all their parameters. -/
theorem settled_setAll (h : Orderly g ops) :
    ∀ op ∈ ops, SettledAt g (d.setAll g ops) op.1 op.2 := by
  induction ops generalizing d with
  | nil => exact List.forall_mem_nil _
  | cons op ops ih =>
    obtain ⟨hacc, hfollows, hbool, h⟩ := h.cons
    obtain ⟨d', hset⟩ := Option.isSome_iff_exists.1 ((setCfg_isSome (d := d)).trans hacc)
    rw [setAll_cons, hset]
    exact List.forall_mem_cons.2 ⟨(settled_setCfg hset hbool).setAll hfollows, ih h⟩

/-- Settings of settled parameters change nothing. -/
theorem setAll_settled (hs : ∀ op ∈ ops, SettledAt g d op.1 op.2) :
    SameConfig d (d.setAll g ops) := by
  induction ops generalizing d with
  | nil => exact .refl d
  | cons op ops ih =>
    obtain ⟨hop, hs⟩ := List.forall_mem_cons.1 hs
    rw [setAll_cons]
    cases hset : d.setCfg g op.1 op.2 with
    | none => exact ih hs
    | some d' =>
      have hsame : SameConfig d d' := setCfg_settled hop hset
      exact hsame.trans (ih fun op' hop' => (hs op' hop').congr hsame)

theorem param_setAll_of_follows (h : ∀ op ∈ ops, follows i op.1 = true) (hj : follows i j = false) :
    (d.setAll g ops).param j = d.param j := by
  induction ops generalizing d with
  | nil => rfl
  | cons op ops ih =>
    obtain ⟨hop, h⟩ := List.forall_mem_cons.1 h
    rw [setAll_cons, ih h]
    cases hset : d.setCfg g op.1 op.2 with
    | none => rfl
    | some d' =>
      refine param_setCfg_of_ne hset ?_
      rintro rfl
      rw [hop] at hj
      cases hj

/-- The words that orderly settings send are those of the mirror at their end. -/
theorem sent_setAll (h : Orderly g ops) : (d.setAll g ops).sent =
    d.sent ++ ops.flatMap fun op => portWords g (d.setAll g ops) op.1 := by
  induction ops generalizing d with
  | nil => exact (List.append_nil _).symm
  | cons op ops ih =>
    obtain ⟨hacc, hfollows, -, h⟩ := h.cons
    obtain ⟨d', hset⟩ := Option.isSome_iff_exists.1 ((setCfg_isSome (d := d)).trans hacc)
    have hwords : portWords g (d'.setAll g ops) op.1 = portWords g d' op.1 :=
      portWords_congr fun j hj => param_setAll_of_follows hfollows hj
    have hcons : d.setAll g (op :: ops) = d'.setAll g ops := by
      rw [setAll_cons, hset]
      rfl
    rw [hcons, ih h, sent_setCfg hset, List.flatMap_cons, hwords, List.append_assoc]

/-- **Settings of settled parameters** change nothing, and send the words of the mirror. -/
theorem setAll_again (h : Orderly g ops) (hs : ∀ op ∈ ops, SettledAt g d op.1 op.2) :
    SameConfig d (d.setAll g ops) ∧
      (d.setAll g ops).sent = d.sent ++ ops.flatMap fun op => portWords g d op.1 := by
  have hsame : SameConfig d (d.setAll g ops) := setAll_settled hs
  refine ⟨hsame, (sent_setAll h).trans ?_⟩
  have hwords : ∀ i, portWords g (d.setAll g ops) i = portWords g d i := fun i =>
    portWords_congr fun j _ => congrFun hsame.param j
  simp only [hwords]

/-! ## The tables -/

theorem follows_of_ne (hi : coefficient i = false) (hj : coefficient j = true) :
    follows i j = true := by
  cases j with
  | notch1 n | notch2 n | polyphaseFir n =>
    cases i with
    | notch1 m | notch2 m | polyphaseFir m => cases hi
    | ilk m => cases m <;> rfl
    | pm m => cases m <;> rfl
    | sr m => cases m <;> rfl
    | _ => rfl
  | _ => cases hj

/-- The tables are in order. -/
theorem setMap_follows (decimation : Word) :
    ((setMap decimation).map (·.code)).Pairwise fun i j => follows i j = true := by
  have hcodes : (baseSetMap ++ customSetMap decimation).map (·.code) =
      (baseSetMap ++ customSetMap 0).map (·.code) := rfl
  have hplain : ∀ c ∈ (baseSetMap ++ customSetMap 0).map (·.code), coefficient c = false := by
    decide
  have hfin : ∀ n, (List.finRange n).Pairwise (· < ·) := List.pairwise_lt_finRange
  have hcoeff : (coeffMap.map (·.code)).Pairwise fun i j => follows i j = true := by
    simp only [coeffMap, List.map_append, List.map_map, List.pairwise_append, List.pairwise_map]
    refine ⟨(hfin _).imp fun h => decide_eq_true h, ⟨(hfin _).imp fun h => decide_eq_true h,
      (hfin _).imp fun h => decide_eq_true h, ?_⟩, ?_⟩
    · simp only [List.mem_map]
      rintro _ ⟨i, -, rfl⟩ _ ⟨j, -, rfl⟩
      rfl
    · simp only [List.mem_append, List.mem_map]
      rintro _ ⟨i, -, rfl⟩ _ (⟨j, -, rfl⟩ | ⟨j, -, rfl⟩) <;> rfl
  rw [setMap, ← List.append_assoc, List.map_append, hcodes, List.pairwise_append]
  refine ⟨by decide, hcoeff, fun i hi j hj => ?_⟩
  obtain ⟨e, he, rfl⟩ := List.mem_map.1 hj
  exact follows_of_ne (hplain i hi) (coeffMap_coefficient he).1

theorem bool_of_valid {w : Word} (h : ebppIsValidBool w = true) : w = 0 ∨ w = 1 := by
  simp only [ebppIsValidBool, inRange, Bool.and_eq_true, decide_eq_true_eq] at h
  rcases (by omega : w.toInt = 0 ∨ w.toInt = 1) with hw | hw
  · exact .inl (BitVec.eq_of_toInt_eq hw)
  · exact .inr (BitVec.eq_of_toInt_eq hw)

section

variable {u : CfgWorld} {fd : Option File} {decimation : Word} {p : EnvParams} {flags : Bitmask}

theorem orderly_sentParams : Orderly g (sentParams g u fd p flags (setMap decimation)) where
  accepted _ hop := sentParams_accepted hop
  order := (setMap_follows decimation).sublist sentParams_sublist
  bool op hop henable := by
    obtain ⟨e, he, rfl⟩ := List.mem_map.1 hop
    have ht := List.mem_takeWhile_imp he
    have he : e ∈ setMap decimation := (List.mem_filter.1 ((List.takeWhile_sublist _).subset he)).1
    have hentry : paramSr .enable (.check ebppIsValidBool) ∈ setMap decimation := by
      refine List.mem_append_right _ (List.mem_append_left _ ?_)
      simp only [customSetMap, List.mem_cons, true_or, or_true]
    obtain rfl : e = paramSr .enable (.check ebppIsValidBool) :=
      List.inj_on_of_nodup_map (setMap_codes decimation) he hentry henable
    simp only [taken, Bool.and_eq_true] at ht
    exact bool_of_valid ht.1.1

/-- The settings of a call are orderly. -/
theorem orderly_callSettings : Orderly g (callSettings g u fd decimation p flags) := by
  unfold callSettings
  split
  · have hbase : (sentParams g u fd p flags baseSetMap).Sublist
        (sentParams g u fd p flags (setMap decimation)) := by
      rw [setMap, sentParams_append]
      exact List.sublist_append_left _ _
    have h : Orderly g (sentParams g u fd p flags (setMap decimation)) := orderly_sentParams
    exact ⟨fun op hop => h.accepted op (hbase.subset hop), h.order.sublist (hbase.map _),
      fun op hop => h.bool op (hbase.subset hop)⟩
  · exact orderly_sentParams

end

end LiberaDaq.Kernel
