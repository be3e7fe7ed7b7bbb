import LiberaDaq.Kernel.CfgCall
import LiberaDaq.Kernel.Interlock

/-!
# Validation of environment parameters

Most parameters have a validator in the tables of `cspi_setenvparam`, and the comment at each
validator says which values it is for: the domain of the parameter (`Domain`). A call that succeeds
should have set values of the domains alone, and no other value should reach the configuration
device, the DSC server or the PLL daemon on the way.

The validator of the switches admits every value. A call therefore keeps to the domains exactly when
it does not get to the switches with another value (`validated_iff`).
-/

namespace LiberaDaq.Kernel

open LiberaDaq.Interaction LiberaDaq.Cspi Prog

variable {g : Global} {u : CfgWorld} {l : Lib} {fd : Option File} {p : EnvParams} {flags : Bitmask}
  {es : List ParamMap} {e : ParamMap} {decimation : Word} {gains : Word → ℤ}
  {v : CfgWorld × List SysEvent}

/-! ## Domains -/

/-- The value is an `int` from `lo` up to `hi`. -/
abbrev Between (lo hi : ℤ) (w : Word) : Prop := lo ≤ w.toInt ∧ w.toInt ≤ hi

/-- The values that a parameter is for, as its validator documents them. The filters for averages
depend on the decimation of the DDC, and the gain limit on the table of gains. A member without a
validator takes any value. -/
def Domain (decimation : Word) (gains : Word → ℤ) : EnvField → Word → Prop
  | .trigMode, w => w = trigmodeGet ∨ w = trigmodeSet
  | .kx, w | .ky, w => w.toNat ≤ 536870911
  | .xoffset, w | .yoffset, w | .qoffset, w => Between (-536870912) 536870911 w
  -- `CSPI_SWITCH_AUTO`, `CSPI_SWITCH_DIRECT`, and from `CSPI_SWITCH_MIN` up to `CSPI_SWITCH_MAX`
  | .switches, w => w = 0xff ∨ w = switchDirect ∨ w.toNat ≤ 0x0f
  | .gain, w => Between (-80) 0 w
  | .agc, w => w = 0 ∨ w = 1
  | .dsc, w => w.toNat ≤ 3
  | .ilk .mode, w => w = 0 ∨ w = 1 ∨ w = 3
  | .ilk .gainLimit, w => gains w ≠ -1
  | .ilk .overflowLimit, w | .pm .overflowLimit, w => Between 0 32766 w
  | .ilk .overflowDur, w | .pm .overflowDur, w => Between 0 1023 w
  | .ilk _, w => Between (-16777216) 16777215 w
  | .pm .mode, w => Between 0 2 w
  | .pm _, w => Between (-16777216) 16777215 w
  | .pmOffset, w => Between (-524287) 524287 w
  | .pmDec, w => w = 1 ∨ w = 64
  | .trigDelay, w => Between 0 16383 w
  | .ddcMaflength, w | .ddcMafdelay, w => 0 ≤ w.toInt ∧ w.toNat < decimation.toNat
  | .sr .enable, w | .sr .cspiEnable, w => w = 0 ∨ w = 1
  | .sr .averagingStop, w | .sr .start, w => Between (-16) 15 w
  -- at most one bit is set
  | .sr .averageWindow, w => w = 0 ∨ w = 1 ∨ w = 2 ∨ w = 4 ∨ w = 8 ∨ w = 16
  | .sr .window, w => Between 0 127 w
  | .sp .threshold, w => Between (-32768) 32767 w
  | .sp _, w => Between 0 1023 w
  | .mtvcxoffs, w => Between (-500) 500 w
  | .mtncoshft, w => w = 0 ∨ w = 1
  | .mtphsoffs, w => Between (-6250) 6250 w
  | .mtunlcktr, w | .stunlcktr, w => Between 1 30000 w
  | .mtsyncin, w => 0 ≤ w.toInt
  | _, _ => True

/-- The member that a message of the DSC server sets. -/
def dscField : DscMessage → Option EnvField
  | .setAgc => some .agc
  | .setDsc => some .dsc
  | .setGain => some .gain
  | .setSwitch => some .switches
  | _ => none

/-- The member that a command of the PLL daemon sets. -/
def pllField : Char → Option EnvField
  | 'o' => some .mtvcxoffs
  | 'c' => some .mtncoshft
  | 'f' => some .mtphsoffs
  | 'l' => some .mtunlcktr
  | 's' => some .mtsyncin
  | 'k' => some .stunlcktr
  | _ => none

/-- The call carries values of the domains alone. The gain limit goes to the device beside its
attenuation. -/
def CallInDomain (decimation : Word) (gains : Word → ℤ) : SysCall → Prop
  | .setCfg _ (.ilk .gainLimit) val => ∃ w, Domain decimation gains (.ilk .gainLimit) w ∧
      val = (w <<< 16) ||| (BitVec.ofInt 32 (gains w) &&& 0x0000ffff)
  | .setCfg _ idx val => ∀ f, envField idx = some f → Domain decimation gains f val
  | .dscMessage m val => ∀ f, dscField m = some f → Domain decimation gains f (val.setWidth 32)
  | .pllSetcmd cmds => ∀ c ∈ cmds, ∀ f, pllField c.1 = some f → Domain decimation gains f c.2
  | _ => True

/-- The flags select the member. -/
def Selects (flags : Bitmask) (f : EnvField) : Prop :=
  (∃ e ∈ setMap 0, flags.hits e.mask = true ∧ e.field = f) ∨
    (∃ e ∈ dscSetMap, flags.hits e.mask = true ∧ dscField e.msg = some f) ∨
    ∃ e ∈ pllSetMap, flags.hits e.mask = true ∧ e.field = f

/-! ## Validators -/

theorem between_of_inRange {lo hi : ℤ} {w : Word} (h : inRange lo hi w = true) :
    Between lo hi w := by
  simpa [inRange] using h

/-- A validator of a table admits only values of the domain of its entry. -/
def Sound (decimation : Word) (gains : Word → ℤ) (e : ParamMap) : Prop :=
  match e.validate with
  | .none => e.code ≠ .ilk .gainLimit ∧ envField e.code = some e.field ∧
      ∀ w, Domain decimation gains e.field w
  | .check ok => e.code ≠ .ilk .gainLimit ∧ envField e.code = some e.field ∧
      ∀ w, ok w = true → Domain decimation gains e.field w
  | .setGainlimit => e.code = .ilk .gainLimit ∧ e.field = .ilk .gainLimit
  | _ => False

theorem toInt_bool {w : Word} (h : Between 0 1 w) : w = 0 ∨ w = 1 := by
  obtain ⟨hlo, hhi⟩ := h
  rw [BitVec.toInt_eq_toNat_cond] at hlo hhi
  have hlt := w.isLt
  have hnat : w.toNat = 0 ∨ w.toNat = 1 := by
    split at hlo
    · omega
    · omega
  exact hnat.imp (fun h => BitVec.eq_of_toNat_eq h) fun h => BitVec.eq_of_toNat_eq h

theorem averagewindow_sound {w : Word} (h : ebppIsValidAveragewindow w = true) :
    w = 0 ∨ w = 1 ∨ w = 2 ∨ w = 4 ∨ w = 8 ∨ w = 16 := by
  have hall : ∀ n : Fin 17, ebppIsValidAveragewindow (BitVec.ofNat 32 n) = true →
      n.val = 0 ∨ n.val = 1 ∨ n.val = 2 ∨ n.val = 4 ∨ n.val = 8 ∨ n.val = 16 := by decide
  have hle : w.toNat < 17 := by
    by_contra hgt
    rw [ebppIsValidAveragewindow, if_pos (show (16 : Word) < w from ?_)] at h
    · cases h
    · rw [BitVec.lt_def]
      exact Nat.lt_of_not_le fun hle => hgt (Nat.lt_succ_of_le hle)
  have hw : BitVec.ofNat 32 w.toNat = w := by simp
  have hn := hall ⟨w.toNat, hle⟩ (by simpa [hw] using h)
  have heq : ∀ {v : Word}, w.toNat = v.toNat → w = v := fun h => BitVec.eq_of_toNat_eq h
  exact hn.imp (heq ·) (·.imp (heq ·) (·.imp (heq ·) (·.imp (heq ·) (·.imp (heq ·) (heq ·)))))

theorem sound_check {m : Bitmask} {code : CfgIndex} {field : EnvField} {ok : Word → Bool}
    (hc : code ≠ .ilk .gainLimit) (hf : envField code = some field)
    (hok : ∀ w, ok w = true → Domain decimation gains field w) :
    Sound decimation gains ⟨m, code, field, .check ok⟩ := ⟨hc, hf, hok⟩

theorem sound_none {m : Bitmask} {code : CfgIndex} {field : EnvField} (hc : code ≠ .ilk .gainLimit)
    (hf : envField code = some field) (h : ∀ w, Domain decimation gains field w) :
    Sound decimation gains ⟨m, code, field, .none⟩ := ⟨hc, hf, h⟩

theorem baseSetMap_sound : ∀ e ∈ baseSetMap, Sound decimation gains e := by
  refine List.forall_mem_singleton.2 (sound_check nofun rfl fun w h => ?_)
  simpa [Domain, isValidtrigmode] using h

theorem coeffMap_sound : ∀ e ∈ coeffMap, Sound decimation gains e := by
  intro e he
  simp only [coeffMap, List.mem_append, List.mem_map] at he
  obtain ⟨i, -, rfl⟩ | ⟨i, -, rfl⟩ | ⟨i, -, rfl⟩ := he <;>
    exact sound_none (by rintro ⟨⟩) rfl fun _ => trivial

theorem customSetMap_sound : ∀ e ∈ customSetMap decimation, Sound decimation gains e := by
  have hrange : ∀ {m code field} {lo hi : ℤ}, code ≠ CfgIndex.ilk .gainLimit →
      envField code = some field → (∀ w, Domain decimation gains field w = Between lo hi w) →
      Sound decimation gains ⟨m, code, field, .check (inRange lo hi)⟩ := fun hc hf h =>
    sound_check hc hf fun w hw => (h w).mpr (between_of_inRange hw)
  have hmaf : ∀ w, ebppIsValidmafparameter decimation w = true →
      0 ≤ w.toInt ∧ w.toNat < decimation.toNat := fun w h => by
    simpa [ebppIsValidmafparameter, BitVec.lt_def] using h
  have hcoef : ∀ w, ebppIsValidcoef w = true → w.toNat ≤ 536870911 := fun w h => by
    simpa [ebppIsValidcoef, BitVec.le_def] using h
  simp only [customSetMap, paramIlk, paramPm, paramSr, paramSp, List.forall_mem_cons]
  refine ⟨sound_check nofun rfl hcoef, sound_check nofun rfl hcoef, hrange nofun rfl fun _ => rfl,
    hrange nofun rfl fun _ => rfl, hrange nofun rfl fun _ => rfl, sound_check nofun rfl ?_,
    hrange nofun rfl fun _ => rfl, hrange nofun rfl fun _ => rfl, hrange nofun rfl fun _ => rfl,
    hrange nofun rfl fun _ => rfl, hrange nofun rfl fun _ => rfl, hrange nofun rfl fun _ => rfl,
    ⟨rfl, rfl⟩, sound_none nofun rfl fun _ => trivial, sound_check nofun rfl ?_,
    sound_check nofun rfl ?_, hrange nofun rfl fun _ => rfl, sound_none nofun rfl fun _ => trivial,
    sound_none nofun rfl fun _ => trivial, sound_check nofun rfl hmaf, sound_check nofun rfl hmaf,
    hrange nofun rfl fun _ => rfl, hrange nofun rfl fun _ => rfl, hrange nofun rfl fun _ => rfl,
    hrange nofun rfl fun _ => rfl, hrange nofun rfl fun _ => rfl, hrange nofun rfl fun _ => rfl,
    hrange nofun rfl fun _ => rfl,
    sound_check nofun rfl fun w h => toInt_bool (between_of_inRange h),
    sound_check nofun rfl fun w h => toInt_bool (between_of_inRange h),
    hrange nofun rfl fun _ => rfl,
    sound_check nofun rfl fun w h => averagewindow_sound h, hrange nofun rfl fun _ => rfl,
    hrange nofun rfl fun _ => rfl, hrange nofun rfl fun _ => rfl, hrange nofun rfl fun _ => rfl,
    hrange nofun rfl fun _ => rfl, List.forall_mem_nil _⟩
  · intro w h
    simpa [Domain, ebppIsValidilk, or_assoc] using h
  · intro w h
    simp only [ebppIsValidpmoffset, Bool.and_eq_true, decide_eq_true_eq] at h
    exact ⟨by omega, by omega⟩
  · intro w h
    simpa [Domain, ebppIsValiddecimation] using h

theorem setMap_sound : ∀ e ∈ setMap decimation, Sound decimation gains e :=
  List.forall_mem_append.2 ⟨baseSetMap_sound,
    List.forall_mem_append.2 ⟨customSetMap_sound, coeffMap_sound⟩⟩

/-- The validators of the messages to the DSC server, but for the one of the switches. -/
theorem dscSetMap_sound : ∀ e ∈ dscSetMap, ∀ f, dscField e.msg = some f → f ≠ .switches →
    e.valid p = true → Domain decimation gains f (p.val f) := by
  simp only [dscSetMap, List.forall_mem_cons]
  refine ⟨?_, ?_, ?_, ?_, ?_, List.forall_mem_nil _⟩
  · rintro _ ⟨⟩ h
    exact absurd rfl h
  · rintro _ ⟨⟩ - h
    simpa [Domain, DscParamMap.valid, ebppIsValidagc] using h
  · rintro _ ⟨⟩ - h
    exact between_of_inRange h
  · rintro _ ⟨⟩ - h
    have hle : ∀ v : Word, p.val .dsc = v → v.toNat ≤ 3 → (p.val .dsc).toNat ≤ 3 := fun v hv hle =>
      hv ▸ hle
    simp only [DscParamMap.valid, ebppIsValiddsc, Bool.or_eq_true, decide_eq_true_eq] at h
    rcases h with ((h | h) | h) | h
    · exact hle _ h (by decide)
    · exact hle _ h (by decide)
    · exact hle _ h (by decide)
    · exact hle _ h (by decide)
  · exact nofun

theorem pllSetMap_sound : ∀ e ∈ pllSetMap, pllField e.cmd = some e.field ∧
    ∀ w, e.validate w = true → Domain decimation gains e.field w := by
  simp only [pllSetMap, List.forall_mem_cons]
  refine ⟨⟨rfl, fun w h => between_of_inRange h⟩, ⟨rfl, fun w h => ?_⟩,
    ⟨rfl, fun w h => between_of_inRange h⟩, ⟨rfl, fun w h => between_of_inRange h⟩,
    ⟨rfl, fun w h => ?_⟩, ⟨rfl, fun w h => between_of_inRange h⟩, List.forall_mem_nil _⟩
  · simpa [Domain, ebppIsValidMtncoshft] using h
  · simpa [Domain, ebppIsValidMtsyncin] using h

/-! ## The tables -/

/-- The configuration device, where a query for the access of a file tells the truth. -/
def openServe (g : Global) : Serves SysCall SysAns CfgWorld
  | .getfl f, x, u, u' => x = some f.access ∧ u' = u
  | c, x, u, u' => cfgServe g c x u u'

theorem openServe_cfgServe (c : SysCall) (x : SysAns c) (u u' : CfgWorld)
    (h : openServe g c x u u') : cfgServe g c x u u' := by
  cases c with
  | getfl f => exact h.2
  | _ => exact h

theorem openServe_gains {c : SysCall} {x : SysAns c} {u u' : CfgWorld} (h : openServe g c x u u') :
    u'.gains = u.gains := by
  have h := openServe_cfgServe c x u u' h
  cases c with
  | setCfg f idx val =>
    simp only [cfgServe] at h
    split at h
    · rw [h.2]
    · rw [h.2]
  | getCfg | toattn => rw [h.2]
  | dscMessage m w =>
    obtain ⟨a, b, rfl⟩ := h
    rfl
  | hang | fault => exact x.elim
  | _ => exact congrArg CfgWorld.gains (show u' = u from h)

/-- All calls so far carried values of the domains. -/
structure Clean (decimation : Word) (gains : Word → ℤ) (v : CfgWorld × List SysEvent) : Prop where
  table : v.1.gains = gains
  calls : ∀ ev ∈ v.2, CallInDomain decimation gains ev.1

theorem Clean.call {c : SysCall} {x : SysAns c} {v' : CfgWorld × List SysEvent}
    (h : Clean decimation gains v) (hx : record (openServe g) c x v v')
    (hc : CallInDomain decimation gains c) : Clean decimation gains v' where
  table := (openServe_gains hx.1).trans h.table
  calls := by
    rw [hx.2]
    exact List.forall_mem_append.2 ⟨h.calls, List.forall_mem_singleton.2 hc⟩

/-- What a walk through a table has come to: the calls were clean, and if it succeeded, the values
that the flags select are of the domains. -/
structure Checked (decimation : Word) (gains : Word → ℤ) (p : EnvParams) (flags : Bitmask)
    (es : List ParamMap) (r : ParamResult) (v : CfgWorld × List SysEvent) : Prop where
  clean : Clean decimation gains v
  domain : r.1 = cspiOk → ∀ e ∈ es, flags.hits e.mask = true →
    Domain decimation gains e.field (p.val e.field)
  frame : ∀ f, f ∉ es.map (·.field) → r.2.val f = p.val f

theorem wlp_setCfg_clean {code : CfgIndex} {w : Word} (hv : Clean decimation gains v)
    (hc : ∀ f, CallInDomain decimation gains (.setCfg f code w)) {q : EnvParams} :
    ((onFile fd false fun f => sys (.setCfg f code w)) >>= fun set =>
      Pure.pure (if set then cspiOk else cspiESystem, q)).wlp (record (openServe g))
      (fun r v' => Clean decimation gains v' ∧ r.2 = q) v := by
  cases fd with
  | none => exact ⟨hv, rfl⟩
  | some f => exact fun x v' hx => ⟨hv.call hx (hc f), rfl⟩

theorem callInDomain_setCfg {code : CfgIndex} {w : Word} {field : EnvField} {f : File}
    (hc : code ≠ .ilk .gainLimit) (hf : envField code = some field)
    (hw : Domain decimation gains field w) : CallInDomain decimation gains (.setCfg f code w) := by
  have h : ∀ f', envField code = some f' → Domain decimation gains f' w := by
    rintro f' hf'
    rw [hf, Option.some.injEq] at hf'
    exact hf' ▸ hw
  cases code with
  | ilk m =>
    cases m with
    | gainLimit => exact absurd rfl hc
    | _ => exact h
  | _ => exact h

/-- `set_param` sends only what the validator admits. -/
theorem wlp_setParam_clean (flags : Bitmask) (he : Sound decimation gains e)
    (hv : Clean decimation gains v) :
    (setParam fd e p).wlp (record (openServe g))
      (fun r v' => Checked decimation gains p flags [e] r v') v := by
  have hframe : ∀ w (f : EnvField), f ∉ [e].map (·.field) → (p.set e.field w).val f = p.val f :=
    fun w f hf => EnvParams.set_val_of_ne _ (fun h => hf (List.mem_singleton.2 h)) _
  have hno : cspiEInvalidParam ≠ cspiOk := by decide
  have hrefused : ∀ v' w, Clean decimation gains v' →
      Checked decimation gains p flags [e] (cspiEInvalidParam, p.set e.field w) v' :=
        fun v' w hv' =>
    ⟨hv', fun h => absurd h hno, hframe w⟩
  have hsend : ∀ v' w, Clean decimation gains v' →
      (∀ f, CallInDomain decimation gains (.setCfg f e.code w)) →
      Domain decimation gains e.field (p.val e.field) →
      ((onFile fd false fun f => sys (.setCfg f e.code w)) >>= fun set => (Pure.pure
        (if set then cspiOk else cspiESystem, p.set e.field w) : LibProg ParamResult)).wlp
        (record (openServe g)) (Checked decimation gains p flags [e]) v' := by
    intro v' w hv' hc hd
    refine wlp_mono (wlp_setCfg_clean hv' hc) fun r v'' h => ⟨h.1, fun _ => ?_, fun f hf => ?_⟩
    · exact List.forall_mem_singleton.2 fun _ => hd
    · rw [h.2]
      exact hframe w f hf
  unfold setParam
  unfold Sound at he
  cases hval : e.validate with
  | none =>
    rw [hval] at he
    exact hsend v _ hv (fun f => callInDomain_setCfg he.1 he.2.1 (he.2.2 _)) (he.2.2 _)
  | check ok =>
    rw [hval] at he
    change (if ok (p.val e.field) = true then _ else _ : LibProg ParamResult).wlp _ _ _
    split
    · next hok =>
      have hd := he.2.2 _ hok
      exact hsend v _ hv (fun f => callInDomain_setCfg he.1 he.2.1 hd) hd
    · exact hrefused v _ hv
  | setGainlimit =>
    rw [hval] at he
    obtain ⟨hcode, hfield⟩ := he
    rw [Validator.run, bind_assoc]
    refine wlp_perform_bind.2 fun attn v₁ hx => ?_
    have hv₁ := hv.call hx trivial
    have hattn : attn = gains (p.val e.field) := by
      rw [← hv.table]
      exact hx.1.1
    by_cases hlisted : attn = -1
    · rw [if_pos hlisted]
      exact hrefused v₁ _ hv₁
    · rw [if_neg hlisted]
      have hd : Domain decimation gains (.ilk .gainLimit) (p.val e.field) := fun h =>
        hlisted (hattn.trans h)
      refine hsend v₁ _ hv₁ (fun f => ?_) (hfield ▸ hd)
      rw [hcode, hattn]
      exact ⟨_, hd, rfl⟩
  | getOverflowlimit | getGainlimit =>
    rw [hval] at he
    exact he.elim

theorem wlp_handleParams_clean (hes : ∀ e ∈ es, Sound decimation gains e)
    (hn : (es.map (·.field)).Nodup) (hv : Clean decimation gains v) :
    (handleParams (setParam fd) flags es p).wlp (record (openServe g))
      (Checked decimation gains p flags es) v := by
  induction es generalizing p v with
  | nil => exact ⟨hv, fun _ => List.forall_mem_nil _, fun _ _ => rfl⟩
  | cons e es ih =>
    obtain ⟨he, hes⟩ := List.forall_mem_cons.1 hes
    obtain ⟨hn₁, hn⟩ := List.nodup_cons.1 hn
    rw [handleParams]
    cases hf : flags.hits e.mask with
    | false =>
      refine wlp_mono (ih hes hn hv) fun r v' h => ⟨h.clean, fun hr => ?_, fun f hf => ?_⟩
      · refine List.forall_mem_cons.2 ⟨fun hhit => ?_, h.domain hr⟩
        rw [hf] at hhit
        cases hhit
      · exact h.frame f fun h => hf (List.mem_cons_of_mem _ h)
    | true =>
      refine wlp_seq (wlp_setParam_clean flags he hv) fun r v₁ h₁ => ?_
      have hother : ∀ f ≠ e.field, r.2.val f = p.val f := fun f hne =>
        h₁.frame f fun h => hne (List.mem_singleton.1 h)
      unfold ParamResult.andThen
      split
      · next hr =>
        have hd := List.forall_mem_singleton.1 (h₁.domain hr) hf
        have hsame : ∀ e' ∈ es, r.2.val e'.field = p.val e'.field := fun e' he' =>
          hother _ fun h => hn₁ (List.mem_map.2 ⟨e', he', h⟩)
        refine wlp_mono (ih hes hn h₁.clean) fun r' v' h => ⟨h.clean, fun hr' => ?_, fun f hf => ?_⟩
        · refine List.forall_mem_cons.2 ⟨fun _ => hd, fun e' he' hf' => ?_⟩
          exact hsame e' he' ▸ h.domain hr' e' he' hf'
        · rw [List.map_cons, List.mem_cons, not_or] at hf
          exact (h.frame f hf.2).trans (hother f hf.1)
      · next hr =>
        refine ⟨h₁.clean, fun h => absurd h hr, fun f hf => hother f fun h => hf ?_⟩
        exact h ▸ List.mem_cons_self

/-- A walk through the next table. -/
theorem Checked.walk {es' : List ParamMap} {r : ParamResult}
    (h : Checked decimation gains p flags es r v) (hes : ∀ e ∈ es', Sound decimation gains e)
    (hn : (es'.map (·.field)).Nodup) (hdisj : ∀ e ∈ es', e.field ∉ es.map (·.field)) :
    (r.andThen (handleParams (setParam fd) flags es')).wlp (record (openServe g))
      (Checked decimation gains p flags (es ++ es')) v := by
  unfold ParamResult.andThen
  split
  · next hr =>
    refine wlp_mono (wlp_handleParams_clean hes hn h.clean) fun r' v' h' =>
      ⟨h'.clean, fun hr' => List.forall_mem_append.2 ⟨h.domain hr, fun e he hf => ?_⟩,
        fun f hf => ?_⟩
    · exact h.frame _ (hdisj e he) ▸ h'.domain hr' e he hf
    · rw [List.map_append, List.mem_append, not_or] at hf
      exact (h'.frame f hf.2).trans (h.frame f hf.1)
  · next hr =>
    refine ⟨h.clean, fun h => absurd h hr, fun f hf => ?_⟩
    rw [List.map_append, List.mem_append, not_or] at hf
    exact h.frame f hf.1

/-- The parts of `custom_setenvparam` that go through the tables. -/
def setTables (fd : Option File) (decimation : Word) (flags : Bitmask) (p : EnvParams) :
    LibProg ParamResult := do
  let r ← baseSetenvparam fd flags p
  let r ← r.andThen (handleParams (setParam fd) flags (customSetMap decimation))
  r.andThen (handleParams (setParam fd) flags coeffMap)

/-- The parts after them. -/
def setDaemons (fd : Option File) (flags : Bitmask) (r : ParamResult) : LibProg ParamResult := do
  let r ← r.andThen (ebppSetdscparam fd flags)
  r.andThen (ebppSetPllparam flags)

theorem setEnvparams_eq : setEnvparams fd decimation flags p =
    setTables fd decimation flags p >>= setDaemons fd flags := by
  simp only [setEnvparams, setTables, bind_assoc]
  rfl

theorem wlp_baseSetenvparam_clean (hv : Clean decimation gains v) :
    (baseSetenvparam fd flags p).wlp (record (openServe g))
      (Checked decimation gains p flags baseSetMap) v := by
  unfold baseSetenvparam
  split
  · next h0 =>
    subst h0
    have hmask : ∀ m, ¬Bitmask.hits 0 m = true := fun m => by simp [Bitmask.hits]
    exact ⟨hv, fun _ e _ he => absurd he (hmask _), fun _ _ => rfl⟩
  · refine wlp_seq (wlp_handleParams_clean baseSetMap_sound (by decide) hv) fun r v₁ h₁ => ?_
    unfold ParamResult.andThen
    split
    · next hr => exact ⟨h₁.clean, fun _ => h₁.domain hr, h₁.frame⟩
    · exact h₁

/-- What the tables have come to. -/
theorem wlp_setTables (hv : Clean decimation v.1.gains v) :
    (setTables fd decimation flags p).wlp (record (openServe g)) (fun r v' =>
      Checked decimation v.1.gains p flags (setMap decimation) r v' ∧
        TablesDone g v.1 fd decimation p flags r v'.1) v := by
  refine wlp_and ?_ (wlp_record ?_)
  · refine wlp_seq (wlp_baseSetenvparam_clean hv) fun r₁ v₁ h₁ => ?_
    refine wlp_seq (h₁.walk customSetMap_sound (customSetMap_fields _) fun e he hf => ?_)
      fun r₂ v₂ h₂ => ?_
    · have hf : e.field = .trigMode := List.mem_singleton.1 hf
      exact customSetMap_trigMode decimation (hf ▸ List.mem_map_of_mem (f := (·.field)) he)
    · have h₃ : (r₂.andThen (handleParams (setParam fd) flags coeffMap)).wlp (record (openServe g))
          _ v₂ := h₂.walk coeffMap_sound coeffMap_fields (coeffMap_later _)
      rwa [List.append_assoc] at h₃
  · have hpure : setTables fd decimation flags p = setTables fd decimation flags p >>= Pure.pure :=
      (bind_pure _).symm
    rw [hpure, setTables]
    simp only [bind_assoc]
    exact wlp_tables decimation openServe_cfgServe fun _ _ h => h

/-! ## The daemons -/

/-- The file is open for reading and writing, as `ebpp_setdscparam` tests it. -/
def writable (fd : Option File) : Bool := fd.all (·.access = .rdwr)

theorem wlp_mayWrite (hv : Clean decimation gains v) : (mayWrite fd).wlp (record (openServe g))
    (fun b v' => b = writable fd ∧ Clean decimation gains v') v := by
  cases fd with
  | none => exact ⟨rfl, hv⟩
  | some f =>
    intro x v' hx
    have hx' : x = some f.access := hx.1.1
    subst hx'
    exact ⟨rfl, hv.call hx trivial⟩

theorem switches_direct (itech : Word) :
    Domain decimation gains .switches (directSwitches itech) := by
  unfold directSwitches
  split
  · exact .inr (.inr (by decide))
  · exact .inr (.inr (by decide))

/-- What `resolveSwitches` leaves of the structure. -/
structure Resolved (p : EnvParams) (r : ParamResult) : Prop where
  frame : ∀ f, f ≠ .switches → f ≠ .featureCustomer → f ≠ .featureItech → r.2.val f = p.val f
  switches : r.1 = cspiOk → r.2.val .switches =
    if p.val .switches = switchDirect then directSwitches (r.2.val .featureItech)
    else p.val .switches

theorem wlp_getfeature (hv : Clean decimation gains v) :
    (getfeatureparam fd envFeature p).wlp (record (openServe g)) (fun r v' =>
      (∀ f, f ≠ .featureCustomer → f ≠ .featureItech → r.2.val f = p.val f) ∧
        Clean decimation gains v') v := by
  have hset : ∀ w₁ w₂ (f : EnvField), f ≠ .featureCustomer → f ≠ .featureItech →
      ((p.set .featureCustomer w₁).set .featureItech w₂).val f = p.val f := fun w₁ w₂ f hc hi =>
    (EnvParams.set_val_of_ne _ hi _).trans (EnvParams.set_val_of_ne _ hc _)
  rw [getfeatureparam, if_pos (by decide)]
  cases fd with
  | none => exact ⟨fun _ _ _ => rfl, hv⟩
  | some f =>
    intro x v₁ hx
    have hv₁ := hv.call hx trivial
    cases x with
    | none => exact ⟨fun _ _ _ => rfl, hv₁⟩
    | some w =>
      intro y v₂ hy
      have hv₂ := hv₁.call hy trivial
      cases y with
      | none => exact ⟨fun _ hc _ => EnvParams.set_val_of_ne _ hc _, hv₂⟩
      | some w' => exact ⟨hset w w', hv₂⟩

theorem wlp_resolveSwitches (hv : Clean decimation gains v) :
    (resolveSwitches fd p).wlp (record (openServe g))
      (fun r v' => Resolved p r ∧ Clean decimation gains v') v := by
  unfold resolveSwitches
  split
  · next hd =>
    refine wlp_seq (wlp_getfeature hv) ?_
    rintro r v' ⟨hframe, hv'⟩
    unfold ParamResult.andThen
    split
    · refine ⟨⟨fun f hs hc hi => ?_, fun _ => ?_⟩, hv'⟩
      · exact (EnvParams.set_val_of_ne _ hs _).trans (hframe f hc hi)
      · rw [if_pos hd, EnvParams.set_val_self, EnvParams.set_val_of_ne _ (by nofun)]
    · next hr => exact ⟨⟨fun f _ => hframe f, fun h => absurd h hr⟩, hv'⟩
  · next hd => exact ⟨⟨fun _ _ _ _ => rfl, fun _ => (if_neg hd).symm⟩, hv⟩

/-- The member that the message of an entry sets. -/
def dscEntryFields (e : DscParamMap) : List EnvField := (dscField e.msg).toList

/-- The entry sends the member that its message sets, if there is one. -/
def sendsField (e : DscParamMap) : Bool :=
  match e.value, dscField e.msg with
  | .int f, some f' => f = f'
  | .none, none => true
  | _, _ => false

theorem sent_eq {e : DscParamMap} (he : sendsField e = true) {f : EnvField}
    (hf : dscField e.msg = some f) : (e.value.sent p).setWidth 32 = p.val f := by
  unfold sendsField at he
  rw [hf] at he
  cases hval : e.value with
  | int f' =>
    rw [hval] at he
    obtain rfl : f' = f := of_decide_eq_true he
    simp [DscValue.sent]
  | _ =>
    rw [hval] at he
    cases he

/-- A reply changes the member of its entry alone. -/
theorem received_frame {e : DscParamMap} (he : sendsField e = true) {reply : Option (BitVec 64)}
    {f : EnvField} (hf : f ∉ dscEntryFields e) :
    (reply.elim p fun w => e.value.received w p).val f = p.val f := by
  cases reply with
  | none => rfl
  | some w =>
    unfold sendsField at he
    unfold dscEntryFields at hf
    cases hval : e.value with
    | int f' =>
      rw [hval] at he
      split at he
      · next hvalue hmsg =>
        cases hvalue
        obtain rfl := of_decide_eq_true he
        rw [hmsg] at hf
        exact EnvParams.set_val_of_ne _ (fun h => hf (List.mem_singleton.2 h)) _
      · next hvalue _ => cases hvalue
      · cases he
    | _ => rfl

/-- What the messages of a table have come to. -/
structure Messaged (decimation : Word) (gains : Word → ℤ) (p q : EnvParams) (flags : Bitmask)
    (es : List DscParamMap) (r : ParamResult) (v : CfgWorld × List SysEvent) : Prop where
  clean : Clean decimation gains v
  domain : r.1 = cspiOk → ∀ e ∈ es, flags.hits e.mask = true → ∀ f, dscField e.msg = some f →
    Domain decimation gains f (p.val f)
  frame : ∀ f, f ∉ es.flatMap dscEntryFields → r.2.val f = q.val f

theorem wlp_dscHandleParams {es : List DscParamMap} (hsend : ∀ e ∈ es, sendsField e = true)
    (hsound : ∀ e ∈ es, flags.hits e.mask = true → ∀ f, dscField e.msg = some f →
      ∀ q : EnvParams, q.val f = p.val f → e.valid q = true → Domain decimation gains f (p.val f))
    (hn : (es.flatMap dscEntryFields).Nodup) (hv : Clean decimation gains v) {q : EnvParams}
    (hq : ∀ f ∈ es.flatMap dscEntryFields, q.val f = p.val f) :
    (ebppDscHandleParams flags es q).wlp (record (openServe g))
      (Messaged decimation gains p q flags es) v := by
  induction es generalizing q v with
  | nil => exact ⟨hv, fun _ => List.forall_mem_nil _, fun _ _ => rfl⟩
  | cons e es ih =>
    obtain ⟨hsend₁, hsend⟩ := List.forall_mem_cons.1 hsend
    obtain ⟨hsound₁, hsound⟩ := List.forall_mem_cons.1 hsound
    rw [List.flatMap_cons] at hn hq
    have hdisj : ∀ f ∈ es.flatMap dscEntryFields, f ∉ dscEntryFields e := fun f hf he =>
      List.disjoint_of_nodup_append hn he hf
    have ih := fun {v} (hv : Clean decimation gains v) {q} hq =>
      ih hsend hsound hn.of_append_right hv (q := q) hq
    have hmem : ∀ f, dscField e.msg = some f → f ∈ dscEntryFields e := fun f hf => by
      simp [dscEntryFields, hf]
    rw [ebppDscHandleParams]
    cases hf : flags.hits e.mask with
    | false =>
      refine wlp_mono (ih hv fun f hf => hq f (List.mem_append_right _ hf)) fun r v' h =>
        ⟨h.clean, fun hr => List.forall_mem_cons.2 ⟨fun hhit => ?_, h.domain hr⟩, fun f hf => ?_⟩
      · rw [hf] at hhit
        cases hhit
      · rw [List.flatMap_cons, List.mem_append, not_or] at hf
        exact h.frame f hf.2
    | true =>
      rw [if_pos rfl]
      split
      · next hvalid =>
        have hd : ∀ f, dscField e.msg = some f → Domain decimation gains f (p.val f) :=
          fun f hmsg =>
            hsound₁ hf f hmsg q (hq f (List.mem_append_left _ (hmem f hmsg))) hvalid
        refine wlp_perform_bind.2 ?_
        rintro ⟨rc, reply⟩ v₁ hx
        have hv₁ : Clean decimation gains v₁ := by
          refine hv.call hx fun f hmsg => ?_
          rw [sent_eq hsend₁ hmsg, hq f (List.mem_append_left _ (hmem f hmsg))]
          exact hd f hmsg
        dsimp only
        have hframe : ∀ f, f ∉ dscEntryFields e →
            (reply.elim q fun w => e.value.received w q).val f = q.val f := fun f hf =>
          received_frame hsend₁ hf
        unfold ParamResult.andThen
        split
        · refine wlp_mono (ih hv₁ fun f hf => ?_) fun r v' h =>
            ⟨h.clean, fun hr => List.forall_mem_cons.2 ⟨fun _ => hd, h.domain hr⟩, fun f hf => ?_⟩
          · exact (hframe f (hdisj f hf)).trans (hq f (List.mem_append_right _ hf))
          · rw [List.flatMap_cons, List.mem_append, not_or] at hf
            exact (h.frame f hf.2).trans (hframe f hf.1)
        · next hrc =>
          refine ⟨hv₁, fun h => absurd h hrc, fun f hf => hframe f fun h => hf ?_⟩
          exact List.mem_append_left _ h
      · exact ⟨hv, fun h => absurd (show cspiEInvalidParam = cspiOk from h) (by decide),
          fun _ _ => rfl⟩

/-- The commands for the PLL daemon carry the selected members, each tested by its validator. -/
theorem pllCommands_sound {es : List PllParamMap} {cmds : List (Char × Word)}
    (h : pllCommands flags p es = some cmds) :
    (∀ c ∈ cmds, ∃ e ∈ es, c = (e.cmd, p.val e.field) ∧ e.validate (p.val e.field) = true) ∧
      ∀ e ∈ es, flags.hits e.mask = true → e.validate (p.val e.field) = true := by
  induction es generalizing cmds with
  | nil =>
    obtain rfl := Option.some.inj h
    exact ⟨List.forall_mem_nil _, List.forall_mem_nil _⟩
  | cons e es ih =>
    rw [pllCommands] at h
    split at h
    · split at h
      · next hok =>
        obtain ⟨cmds', hcmds, rfl⟩ := Option.map_eq_some_iff.1 h
        obtain ⟨hin, hall⟩ := ih hcmds
        refine ⟨List.forall_mem_cons.2 ⟨⟨e, List.mem_cons_self, rfl, hok⟩, fun c hc => ?_⟩,
          List.forall_mem_cons.2 ⟨fun _ => hok, hall⟩⟩
        obtain ⟨e', he', hc'⟩ := hin c hc
        exact ⟨e', List.mem_cons_of_mem _ he', hc'⟩
      · cases h
    · next hf =>
      obtain ⟨hin, hall⟩ := ih h
      refine ⟨fun c hc => ?_, List.forall_mem_cons.2 ⟨fun h => absurd h hf, hall⟩⟩
      obtain ⟨e', he', hc'⟩ := hin c hc
      exact ⟨e', List.mem_cons_of_mem _ he', hc'⟩

theorem wlp_setPllparam (hv : Clean decimation gains v) :
    (ebppSetPllparam flags p).wlp (record (openServe g)) (fun r v' => Clean decimation gains v' ∧
      (r.1 = cspiOk → ∀ e ∈ pllSetMap, flags.hits e.mask = true →
        Domain decimation gains e.field (p.val e.field))) v := by
  unfold ebppSetPllparam
  split
  · exact ⟨hv, fun h => absurd (show cspiEInvalidParam = cspiOk from h) (by decide)⟩
  · next hcmds =>
    exact ⟨hv, fun _ e he hf => (pllSetMap_sound e he).2 _ ((pllCommands_sound hcmds).2 e he hf)⟩
  · next cmds _ hcmds =>
    obtain ⟨hin, hall⟩ := pllCommands_sound hcmds
    refine wlp_perform_bind.2 fun rc v₁ hx => ⟨hv.call hx fun c hc f hf => ?_, fun _ e he hf => ?_⟩
    · obtain ⟨e, he, rfl, hok⟩ := hin c hc
      obtain ⟨hfield, hdomain⟩ : pllField e.cmd = some e.field ∧
          ∀ w, e.validate w = true → Domain decimation gains e.field w := pllSetMap_sound e he
      rw [hfield, Option.some.injEq] at hf
      exact hf ▸ hdomain _ hok
    · exact (pllSetMap_sound e he).2 _ (hall e he hf)

/-- The flags select no value of the switches that is outside of its domain. -/
def SwitchSound (decimation : Word) (gains : Word → ℤ) (p : EnvParams) (flags : Bitmask) : Prop :=
  flags.hits envSwitch = true → Domain decimation gains .switches (p.val .switches)

theorem dscSetMap_fields : dscSetMap.flatMap dscEntryFields = [.switches, .agc, .gain, .dsc] := rfl

theorem dscSetMap_sends : ∀ e ∈ dscSetMap, sendsField e = true := by decide

theorem dscField_of_switches {e : DscParamMap} (he : e ∈ dscSetMap)
    (hmsg : dscField e.msg = some .switches) : e.mask = envSwitch := by
  simp only [dscSetMap, List.mem_cons, List.not_mem_nil, or_false] at he
  obtain rfl | rfl | rfl | rfl | rfl := he
  · rfl
  all_goals cases hmsg

/-- The members that the DSC server has nothing to do with. -/
def foreign (f : EnvField) : Bool :=
  f ∉ [EnvField.switches, .agc, .gain, .dsc, .featureCustomer, .featureItech]

/-- The DSC server gets values of the domains, when the switches have one. -/
theorem wlp_setdscparam (hv : Clean decimation gains v)
    (hsw : writable fd = true → SwitchSound decimation gains p flags) :
    (ebppSetdscparam fd flags p).wlp (record (openServe g)) (fun r v' => Clean decimation gains v' ∧
      (r.1 = cspiOk → ∀ e ∈ dscSetMap, flags.hits e.mask = true → ∀ f, dscField e.msg = some f →
        Domain decimation gains f (p.val f)) ∧
      ∀ f, foreign f = true → r.2.val f = p.val f) v := by
  refine wlp_seq (wlp_mayWrite hv) ?_
  rintro b v₁ ⟨rfl, hv₁⟩
  split
  · next hw =>
    have hsw := hsw hw
    refine wlp_seq (wlp_resolveSwitches hv₁) ?_
    rintro r v₂ ⟨hres, hv₂⟩
    have hframe : ∀ f, foreign f = true → r.2.val f = p.val f := fun f hf => by
      simp only [foreign, List.mem_cons, not_or, decide_eq_true_eq] at hf
      exact hres.frame f hf.1 hf.2.2.2.2.1 hf.2.2.2.2.2.1
    unfold ParamResult.andThen
    split
    · next hr =>
      have hother : ∀ e ∈ dscSetMap, ∀ f, dscField e.msg = some f → f ≠ .switches →
          r.2.val f = p.val f := by
        intro e he f hmsg hne
        refine hres.frame f hne ?_ ?_
        · rintro rfl
          revert hmsg
          cases e.msg <;> nofun
        · rintro rfl
          revert hmsg
          cases e.msg <;> nofun
      have hresolved : flags.hits envSwitch = true →
          Domain decimation gains .switches (r.2.val .switches) := by
        intro hf
        rw [hres.switches hr]
        split
        · exact switches_direct _
        · exact hsw hf
      refine wlp_mono (wlp_dscHandleParams dscSetMap_sends ?_ (by decide) hv₂ fun _ _ => rfl)
        fun r' v' h => ⟨h.clean, fun hr' e he hf f hmsg => ?_, fun f hf => ?_⟩
      · intro e he hf f hmsg q hq hvalid
        by_cases hne : f = .switches
        · subst hne
          exact hresolved (dscField_of_switches he hmsg ▸ hf)
        · exact hq ▸ dscSetMap_sound e he f hmsg hne hvalid
      · by_cases hne : f = .switches
        · subst hne
          exact hsw (dscField_of_switches he hmsg ▸ hf)
        · exact hother e he f hmsg hne ▸ h.domain hr' e he hf f hmsg
      · refine (h.frame f fun hmem => ?_).trans (hframe f hf)
        rw [dscSetMap_fields] at hmem
        simp only [List.mem_cons, List.not_mem_nil, or_false] at hmem
        obtain rfl | rfl | rfl | rfl := hmem
        all_goals cases hf
    · next hr => exact ⟨hv₂, fun h => absurd h hr, hframe⟩
  · exact ⟨hv₁, fun h => absurd (show cspiESystem = cspiOk from h) (by decide), fun _ _ => rfl⟩

/-- The daemons get values of the domains, when the switches have one. -/
theorem wlp_setDaemons {r : ParamResult} (hv : Clean decimation gains v)
    (hsw : r.1 = cspiOk → writable fd = true → SwitchSound decimation gains r.2 flags) :
    (setDaemons fd flags r).wlp (record (openServe g)) (fun r' v' => Clean decimation gains v' ∧
      (r'.1 = cspiOk → r.1 = cspiOk ∧ (∀ e ∈ dscSetMap, flags.hits e.mask = true → ∀ f,
        dscField e.msg = some f → Domain decimation gains f (r.2.val f)) ∧
        ∀ e ∈ pllSetMap, flags.hits e.mask = true →
          Domain decimation gains e.field (r.2.val e.field))) v := by
  have hforeign : ∀ e ∈ pllSetMap, foreign e.field = true := by
    simp only [pllSetMap, List.forall_mem_cons]
    exact ⟨rfl, rfl, rfl, rfl, rfl, rfl, List.forall_mem_nil _⟩
  unfold setDaemons
  by_cases hr : r.1 = cspiOk
  · rw [ParamResult.andThen, if_pos hr]
    refine wlp_seq (wlp_setdscparam hv (hsw hr)) ?_
    rintro r₁ v₁ ⟨hv₁, hdsc, hframe⟩
    unfold ParamResult.andThen
    split
    · next hr₁ =>
      refine wlp_mono (wlp_setPllparam hv₁) ?_
      rintro r₂ v₂ ⟨hv₂, hpll⟩
      refine ⟨hv₂, fun hr₂ => ⟨hr, hdsc hr₁, fun e he hf => ?_⟩⟩
      exact hframe _ (hforeign e he) ▸ hpll hr₂ e he hf
    · next hr₁ => exact ⟨hv₁, fun h => absurd h hr₁⟩
  · have hstop : ∀ k, r.andThen k = Pure.pure r := fun k => if_neg hr
    simp only [hstop, pure_bind']
    exact ⟨hv, fun h => absurd h hr⟩

/-! ## Whole calls -/

/-- A call that succeeded set values of the domains, and no call to the system carried another
one. -/
structure Validated (decimation : Word) (gains : Word → ℤ) (p : EnvParams) (flags : Bitmask)
    (rc : ℤ)
    (tr : List SysEvent) : Prop where
  accepted : rc = cspiOk → ∀ f, Selects flags f → Domain decimation gains f (p.val f)
  sent : ∀ ev ∈ tr, CallInDomain decimation gains ev.1

/-- The call gets to the switches with a value outside of their domain: the handle is that of an
environment that is not locked, neither health nor feature parameters are selected, the selected
parameters of the device are all taken, and the device is open for writing. -/
structure SendsSwitch (g : Global) (l : Lib) (u : CfgWorld) (h : Handle) (p : EnvParams)
    (flags : Bitmask) : Prop where
  environment : h = .env
  unlocked : l.env.mutex = false
  settable : flags.hits envHealth = false ∧ flags.hits envFeature = false
  taken : allTaken g u l.env.fd p flags (setMap l.decimation)
  writable : writable l.env.fd = true
  selected : flags.hits envSwitch = true
  outside : ¬Domain l.decimation u.gains .switches (p.val .switches)

theorem not_mem_setMap {f : EnvField} (ht : f ≠ .trigMode)
    (hf : f ∉ (customSetMap 0).map (·.field)) (hc : coefficientField f = false) :
    f ∉ (setMap decimation).map (·.field) := by
  rw [setMap, List.map_append, List.map_append, List.mem_append, List.mem_append, not_or, not_or]
  refine ⟨fun h => ht (List.mem_singleton.1 h), hf, fun h => ?_⟩
  obtain ⟨e, he, rfl⟩ := List.mem_map.1 h
  rw [(coeffMap_coefficient he).2] at hc
  cases hc

/-- The tables do not touch what the daemons get. -/
theorem daemon_fields {f : EnvField}
    (h : (∃ m, dscField m = some f) ∨ ∃ e ∈ pllSetMap, e.field = f) :
    f ∉ (setMap decimation).map (·.field) := by
  have hdaemon : f ∈ [EnvField.switches, .agc, .gain, .dsc, .mtvcxoffs, .mtncoshft, .mtphsoffs,
      .mtunlcktr, .mtsyncin, .stunlcktr] := by
    rcases h with ⟨m, hm⟩ | ⟨e, he, rfl⟩
    · cases m <;> cases hm <;> decide
    · revert e
      simp only [pllSetMap, List.forall_mem_cons]
      exact ⟨by decide, by decide, by decide, by decide, by decide, by decide,
        List.forall_mem_nil _⟩
  have hall : ∀ f ∈ [EnvField.switches, .agc, .gain, .dsc, .mtvcxoffs, .mtncoshft, .mtphsoffs,
      .mtunlcktr, .mtsyncin, .stunlcktr], f ≠ .trigMode ∧
      f ∉ (customSetMap 0).map (·.field) ∧ coefficientField f = false := by decide
  obtain ⟨ht, hf, hc⟩ := hall f hdaemon
  exact not_mem_setMap ht hf hc

/-- The tables for all decimations have the same members for the same flags. -/
theorem exists_mem_setMap {decimation' : Word} (he : e ∈ setMap decimation') :
    ∃ e' ∈ setMap decimation, e'.mask = e.mask ∧ e'.field = e.field := by
  have hmap : (setMap decimation).map (fun e => (e.mask, e.field)) =
      (setMap decimation').map fun e => (e.mask, e.field) := rfl
  have hmem : (e.mask, e.field) ∈ (setMap decimation).map fun e => (e.mask, e.field) := by
    rw [hmap]
    exact List.mem_map.2 ⟨e, he, rfl⟩
  obtain ⟨e', he', heq⟩ := List.mem_map.1 hmem
  obtain ⟨hm, hf⟩ := Prod.mk.inj heq
  exact ⟨e', he', hm, hf⟩

theorem clean_start (u : CfgWorld) : Clean decimation u.gains (u, []) :=
  ⟨rfl, List.forall_mem_nil _⟩

/-- A call that does not get to the switches with a value outside of their domain. -/
theorem wlp_setenvparam_validated {h : Handle} (hno : ¬SendsSwitch g l u h p flags) :
    (l.setenvparam h p flags).wlp (record (openServe g))
      (fun r v' => Validated l.decimation u.gains p flags r.1.1 v'.2) (u, []) := by
  have hinvalid : ∀ v' : CfgWorld × List SysEvent, v'.2 = [] →
      Validated l.decimation u.gains p flags cspiEInvalidHandle v'.2 := fun v' hv' =>
    ⟨fun h => absurd h (by decide), fun ev hev => absurd hev (by simp [hv'])⟩
  cases h with
  | null => exact hinvalid (u, []) rfl
  | con q =>
    rw [Lib.setenvparam, Lib.isHenv, wlp_bind, wlp_bind, wlp_deref]
    exact fun _ _ => hinvalid (u, []) rfl
  | env =>
    rw [Lib.setenvparam, wlp_bind]
    refine wlp_bind.2 (wlp_lock.2 fun hm => wlp_bind.2 (wlp_bind.2 ?_))
    change (setEnvparams l.env.fd l.decimation flags p).wlp _ _ _
    rw [setEnvparams_eq]
    refine wlp_seq (wlp_setTables (clean_start u)) ?_
    rintro r v₁ ⟨hchecked, htables⟩
    have hframe : ∀ f, ((∃ m, dscField m = some f) ∨ ∃ e ∈ pllSetMap, e.field = f) →
        r.2.val f = p.val f := fun f hf => hchecked.frame f (daemon_fields hf)
    have hswitches : r.2.val .switches = p.val .switches := hframe _ (.inl ⟨.setSwitch, rfl⟩)
    refine wlp_mono (wlp_setDaemons hchecked.clean fun hr hw hf => ?_) ?_
    · by_contra houtside
      obtain ⟨htaken, hsettable⟩ := htables.1.1 hr
      exact hno ⟨rfl, hm, hsettable, htaken, hw, hf, hswitches ▸ houtside⟩
    · rintro r' v' ⟨hclean, hok⟩
      refine ⟨fun hr' f hf => ?_, hclean.calls⟩
      obtain ⟨hr, hdsc, hpll⟩ := hok hr'
      obtain ⟨e, he, hit, rfl⟩ | ⟨e, he, hit, hmsg⟩ | ⟨e, he, hit, rfl⟩ := hf
      · obtain ⟨e', he', hmask, hfield⟩ : ∃ e' ∈ setMap l.decimation, _ := exists_mem_setMap he
        exact hfield ▸ hchecked.domain hr e' he' (hmask ▸ hit)
      · exact hframe f (.inl ⟨_, hmsg⟩) ▸ hdsc e he hit f hmsg
      · exact hframe _ (.inr ⟨e, he, rfl⟩) ▸ hpll e he hit

/-- A call that gets there sends it. -/
theorem wlp_setenvparam_sends {h : Handle} (hs : SendsSwitch g l u h p flags) :
    (l.setenvparam h p flags).wlp (record (openServe g))
      (fun _ v' => ∃ ev ∈ v'.2, ¬CallInDomain l.decimation u.gains ev.1) (u, []) := by
  obtain ⟨rfl, hm, hsettable, htaken, hw, hf, houtside⟩ := hs
  rw [Lib.setenvparam, wlp_bind]
  refine wlp_bind.2 (wlp_lock.2 fun hm => wlp_bind.2 (wlp_bind.2 ?_))
  change (setEnvparams l.env.fd l.decimation flags p).wlp _ _ _
  rw [setEnvparams_eq]
  refine wlp_seq (wlp_setTables (clean_start u)) ?_
  rintro r v₁ ⟨hchecked, htables⟩
  have hr : r.1 = cspiOk := htables.1.2 ⟨htaken, hsettable⟩
  have hswitches : r.2.val .switches = p.val .switches :=
    hchecked.frame _ (daemon_fields (.inl ⟨.setSwitch, rfl⟩))
  have hdirect : ¬r.2.val .switches = switchDirect := fun h =>
    houtside (.inr (.inl (hswitches.symm.trans h)))
  have hvalid : ∀ q : EnvParams,
      DscParamMap.valid ⟨envSwitch, .setSwitch, .int .switches, some ebppIsValidswitch⟩ q = true :=
    fun q => by simp [DscParamMap.valid, ebppIsValidswitch, BitVec.le_def]
  unfold setDaemons
  rw [ParamResult.andThen, if_pos hr]
  refine wlp_bind.2 (wlp_seq (wlp_mayWrite hchecked.clean) ?_)
  rintro b v₂ ⟨rfl, -⟩
  rw [if_pos hw, resolveSwitches, if_neg hdirect, pure_bind', ParamResult.andThen, if_pos rfl]
  rw [dscSetMap, ebppDscHandleParams, if_pos hf, if_pos (hvalid _)]
  refine wlp_bind.2 (wlp_perform.2 fun x v₃ hx => ?_)
  have hmem :
      (⟨.dscMessage .setSwitch ((r.2.val .switches).setWidth 64), x⟩ : SysEvent) ∈ v₃.2 := by
    rw [hx.2]
    exact List.mem_append_right _ (List.mem_singleton_self _)
  refine wlp_mono (wlp_record_mem hmem) fun _ v' hev => wlp_mono (wlp_record_mem hev)
    fun _ v' hev => ⟨_, hev, fun h => houtside ?_⟩
  have hd := h .switches rfl
  rw [← hswitches]
  simpa using hd

/-- While the environment is not locked, `cspi_setenvparam` returns. -/
theorem exists_setenvparam_run (hm : l.env.mutex = false) : ∃ tr r l' u',
    (l.setenvparam .env p flags).Runs tr (r, l') ∧ Served (openServe g) tr u u' := by
  let P : SysCall → Prop := fun c => ∀ u, ∃ x u', openServe g c x u u'
  have hgain : ∀ w, P (.toattn w) := fun w u => ⟨u.gains w, u, rfl, rfl⟩
  have hget : ∀ f idx, P (.getCfg f idx) := fun f idx u => ⟨none, u, .inl rfl, rfl⟩
  have hset : ∀ f idx w, P (.setCfg f idx w) := fun f idx w u => exists_cfgServe_setCfg g f idx w u
  have hdsc : ∀ m w, P (.dscMessage m w) := fun m w u => ⟨(0, none), _, 0, 0, rfl⟩
  have honly : Only P (l.setenvparam .env p flags) :=
    only_setenvparam hm hgain hset hdsc (fun f u => ⟨some f.access, u, rfl, rfl⟩) hget
      fun _ u => ⟨0, u, rfl⟩
  obtain ⟨tr, ⟨r, l'⟩, u', hr, hs⟩ := exists_served honly (fun c v hc => hc v) u
  exact ⟨tr, r, l', u', hr, hs⟩

/-- A call that gets to the switches with a value outside of their domain has a run in which the DSC
server gets it. -/
theorem exists_not_validated {h : Handle} (hs : SendsSwitch g l u h p flags) : ∃ tr r l' u',
    (l.setenvparam h p flags).Runs tr (r, l') ∧ Served (openServe g) tr u u' ∧
      ¬Validated l.decimation u.gains p flags r.1 tr := by
  obtain rfl := hs.environment
  obtain ⟨tr, r, l', u', hr, hserved⟩ := exists_setenvparam_run (g := g) (u := u) hs.unlocked
  obtain ⟨ev, hev, houtside⟩ := hr.of_wlp (hserved.record []) (wlp_setenvparam_sends hs)
  exact ⟨tr, r, l', u', hr, hserved, fun h => houtside (h.sent ev hev)⟩

/-- **Every call keeps to the domains exactly when it does not get to the switches** with a value
outside of theirs. -/
theorem validated_iff (g : Global) (l : Lib) (u : CfgWorld) (h : Handle) (p : EnvParams)
    (flags : Bitmask) :
    (∀ tr r l' u', (l.setenvparam h p flags).Runs tr (r, l') → Served (openServe g) tr u u' →
      Validated l.decimation u.gains p flags r.1 tr) ↔ ¬SendsSwitch g l u h p flags := by
  constructor
  · intro hall hsends
    obtain ⟨tr, r, l', u', hr, hs, hno⟩ := exists_not_validated hsends
    exact hno (hall tr r l' u' hr hs)
  · intro hno tr r l' u' hr hs
    exact hr.of_wlp (hs.record []) (wlp_setenvparam_validated hno)

/-- A call for the switches alone, with a value above `CSPI_SWITCH_MAX`. -/
theorem switch_not_validated : ¬∀ (g : Global) (l : Lib) (u : CfgWorld) (h : Handle) (p : EnvParams)
    (flags : Bitmask) tr r l' u', (l.setenvparam h p flags).Runs tr (r, l') →
    Served (openServe g) tr u u' → Validated l.decimation u.gains p flags r.1 tr := by
  intro h
  have hsends : SendsSwitch brilliance (ilkCall fun _ => 0).lib cfgStart .env
      ⟨fun _ => 0x55, ⟨0, 0⟩, 0⟩ envSwitch := by
    refine ⟨rfl, rfl, by decide, fun e he hf => ?_, rfl, by decide, ?_⟩
    · have htables : (baseSetMap ++ customSetMap 1).all (fun e => !envSwitch.hits e.mask) = true :=
        rfl
      rw [setMap, ← List.append_assoc, List.mem_append] at he
      rcases he with he | he
      · have hno := List.all_eq_true.1 htables e he
        rw [hf] at hno
        cases hno
      · simp only [coeffMap, List.mem_append, List.mem_map] at he
        obtain ⟨i, -, rfl⟩ | ⟨i, -, rfl⟩ | ⟨i, -, rfl⟩ := he
        · exact absurd (show envSwitch.hits envNotch1 = true from hf) (by decide)
        · exact absurd (show envSwitch.hits envNotch2 = true from hf) (by decide)
        · exact absurd (show envSwitch.hits envPolyphaseFir = true from hf) (by decide)
    · simp only [Domain]
      decide
  obtain ⟨tr, r, l', u', hr, hs, hno⟩ := exists_not_validated hsends
  exact hno (h _ _ _ _ _ _ tr r l' u' hr hs)

end LiberaDaq.Kernel
