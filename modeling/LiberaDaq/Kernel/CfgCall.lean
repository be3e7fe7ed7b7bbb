import LiberaDaq.Kernel.CfgStation

/-!
# A whole call at the configuration device

`CfgStation` follows what a call of `cspi_setenvparam` does to the groups, while the DSC server may
report new offsets. Here the DSC server reports none, and what a call does is known of the whole
device: it is the device after the settings that the call makes of its three tables, taken as one
(`wlp_setenvparam`).
-/

namespace LiberaDaq.Kernel

open LiberaDaq.Interaction LiberaDaq.Cspi Prog

variable {g : Global} {u : CfgWorld} {l : Lib} {fd : Option File} {p : EnvParams} {flags : Bitmask}
  {es es' : List ParamMap} {d d' : CfgDevice} {idx j : CfgIndex} {val : Word}

/-! ## Values -/

/-- The value of a parameter at the device. Two of them are kept in registers alone. -/
def CfgDevice.value (d : CfgDevice) : CfgIndex → Word
  | .ddcMaflength => d.reg .ddcMafLength
  | .ddcMafdelay => d.reg .ddcMafDelay
  | idx => d.param idx

/-- The device shows the same in those registers. -/
structure SameMaf (d d' : CfgDevice) : Prop where
  length : d'.reg .ddcMafLength = d.reg .ddcMafLength
  delay : d'.reg .ddcMafDelay = d.reg .ddcMafDelay

theorem SameMaf.refl (d : CfgDevice) : SameMaf d d := ⟨rfl, rfl⟩

theorem SameMaf.mirror (h : SameMaf d d') : SameMaf d (d'.mirror idx val) := ⟨h.length, h.delay⟩

theorem SameMaf.writel {r : CfgRegister} (h : SameMaf d d') (hl : r ≠ .ddcMafLength)
    (hd : r ≠ .ddcMafDelay) : SameMaf d (d'.writel val r) where
  length := (reg_writel_of_ne hl.symm).trans h.length
  delay := (reg_writel_of_ne hd.symm).trans h.delay

theorem SameMaf.writeCoeffs {c : CfgPort} {vals : List Word} (h : SameMaf d d') :
    SameMaf d (d'.writeCoeffs c vals) := by
  have hpush : ∀ d', SameMaf d d' → SameMaf d (vals.foldl (fun d v => d.push v c) d') := by
    induction vals with
    | nil => exact fun _ h => h
    | cons v vals ih => exact fun d' h => ih (d'.push v c) ⟨h.length, h.delay⟩
  exact hpush _ ⟨h.length, h.delay⟩

theorem SameMaf.commitIlk (h : SameMaf d d') : SameMaf d (d'.commitIlk g) := by
  unfold CfgDevice.commitIlk
  refine (((((((h.writel ?_ ?_).writel ?_ ?_).writel ?_ ?_).writel ?_ ?_).writel ?_ ?_).writel
    ?_ ?_).writel ?_ ?_).writel ?_ ?_ <;> nofun

theorem SameMaf.commitPm (h : SameMaf d d') : SameMaf d (d'.commitPm g) := by
  unfold CfgDevice.commitPm
  refine ((((((h.writel ?_ ?_).writel ?_ ?_).writel ?_ ?_).writel ?_ ?_).writel ?_ ?_).writel
    ?_ ?_).writel ?_ ?_ <;> nofun

theorem sameMaf_setAverageWindow : SameMaf d (d.setAverageWindow val) := by
  have h : SameMaf d (d.mirror (.sr .averageWindow) val) := (SameMaf.refl d).mirror
  simp only [CfgDevice.setAverageWindow]
  split
  · refine ((h.writel ?_ ?_).writel ?_ ?_).writel ?_ ?_ <;> rintro ⟨⟩
  · exact h.writel (by rintro ⟨⟩) (by rintro ⟨⟩)

theorem sameMaf_setExtswitch : SameMaf d (d.setExtswitch val) :=
  ((SameMaf.refl d).writel (by nofun) (by nofun)).mirror

theorem sameMaf_setCoeff (h : d.setCoeff g idx val = some d') : SameMaf d d' := by
  have hm : SameMaf d (d.mirror idx val) := (SameMaf.refl d).mirror
  cases idx with
  | notch1 i | notch2 i | polyphaseFir i =>
    simp only [CfgDevice.setCoeff] at h
    split at h
    · exact Option.some.inj h ▸ hm.writeCoeffs
    · exact Option.some.inj h ▸ hm
  | _ => cases h

/-- A setting of any other parameter leaves those registers alone. -/
theorem sameMaf_setCfg (h : d.setCfg g idx val = some d') (hl : idx ≠ .ddcMaflength)
    (hd : idx ≠ .ddcMafdelay) : SameMaf d d' := by
  have hm : ∀ v, SameMaf d (d.mirror idx v) := fun _ => (SameMaf.refl d).mirror
  cases idx with
  | ilk m =>
    cases m with
    | overflowLimit => exact setOverflowLimit_eq h ▸ hm _
    | overflowDur =>
      obtain ⟨-, h⟩ := Option.ite_none_right_eq_some.1 h
      exact Option.some.inj h ▸ hm _
    | gainLimit => exact Option.some.inj h ▸ (hm _).commitIlk
    | _ => exact Option.some.inj h ▸ hm _
  | pm m =>
    cases m with
    | overflowLimit => exact setOverflowLimit_eq h ▸ hm _
    | overflowDur =>
      obtain ⟨-, h⟩ := Option.ite_none_right_eq_some.1 h
      have hc : SameMaf d ((d.mirror (.pm .overflowDur) val).commitPm g) := (hm _).commitPm
      exact Option.some.inj h ▸ ⟨hc.length, hc.delay⟩
    | _ => exact Option.some.inj h ▸ hm _
  | sr m =>
    cases m with
    | cspiEnable => exact Option.some.inj h ▸ hm _
    | averageWindow => exact Option.some.inj h ▸ sameMaf_setAverageWindow
    | _ => exact Option.some.inj h ▸ (hm _).writel (by rintro ⟨⟩) (by rintro ⟨⟩)
  | sp m => cases m <;> exact Option.some.inj h ▸ hm _
  | xoffset | yoffset | qoffset | kx | ky | swdelay =>
    exact Option.some.inj h ▸ (hm _).writel (by rintro ⟨⟩) (by rintro ⟨⟩)
  | trigmode | ilkstatus | pmoffset | pmdec => exact Option.some.inj h ▸ hm _
  | trigdelay => exact Option.some.inj h ▸ (hm _).writel (by rintro ⟨⟩) (by rintro ⟨⟩)
  | extswitch => exact Option.some.inj h ▸ sameMaf_setExtswitch
  | ddcMaflength => exact absurd rfl hl
  | ddcMafdelay => exact absurd rfl hd
  | notch1 i | notch2 i | polyphaseFir i =>
    simp only [CfgDevice.setCfg, CfgDevice.setSpecific] at h
    exact sameMaf_setCoeff h
  | _ => cases h

/-- A setting changes the value of its own parameter alone. -/
theorem value_setCfg_of_ne (h : d.setCfg g idx val = some d') (hj : j ≠ idx) :
    d'.value j = d.value j := by
  have hparam := param_setCfg_of_ne h hj
  cases j with
  | ddcMaflength =>
    by_cases hd : idx = .ddcMafdelay
    · subst hd
      exact Option.some.inj h ▸ reg_writel_of_ne (by nofun)
    · exact (sameMaf_setCfg h hj.symm hd).length
  | ddcMafdelay =>
    by_cases hl : idx = .ddcMaflength
    · subst hl
      exact Option.some.inj h ▸ reg_writel_of_ne (by nofun)
    · exact (sameMaf_setCfg h hl hj.symm).delay
  | _ => exact hparam

theorem value_setAll_of_not_mem {ops : List (CfgIndex × Word)} (hj : j ∉ ops.map Prod.fst) :
    (d.setAll g ops).value j = d.value j := by
  induction ops generalizing d with
  | nil => rfl
  | cons op ops ih =>
    rw [List.map_cons, List.mem_cons, not_or] at hj
    refine (ih (d := (d.setCfg g op.1 op.2).getD d) hj.2).trans ?_
    cases hs : d.setCfg g op.1 op.2 with
    | none => rfl
    | some d' => exact value_setCfg_of_ne hs hj.1

/-! ## The tables of a call -/

/-- What `custom_setenvparam` sets at the device, in the order in which it does. -/
def setMap (decimation : Word) : List ParamMap :=
  baseSetMap ++ (customSetMap decimation ++ coeffMap)

/-- The settings of a call. A call for health or feature parameters stops after the first table. -/
def callSettings (g : Global) (u : CfgWorld) (fd : Option File) (decimation : Word) (p : EnvParams)
    (flags : Bitmask) : List (CfgIndex × Word) :=
  sentParams g u fd p flags
    (if flags.hits envHealth || flags.hits envFeature then baseSetMap else setMap decimation)

theorem sentParams_append : sentParams g u fd p flags (es ++ es') = sentParams g u fd p flags es ++
    if allTaken g u fd p flags es then sentParams g u fd p flags es' else [] := by
  induction es with
  | nil => simp [sentParams, allTaken]
  | cons e es ih =>
    rw [List.cons_append, sentParams_cons, sentParams_cons, ih]
    simp only [allTaken_cons]
    cases flags.hits e.mask with
    | false => simp
    | true =>
      cases taken g u fd p e with
      | false => simp
      | true => simp

/-- What the three filters have that tells their coefficients apart tells all coefficients apart. -/
theorem coeffMap_nodup {γ : Type} {f : ParamMap → γ}
    (h₁ : Function.Injective fun i => f ⟨envNotch1, .notch1 i, .notch1 i, .none⟩)
    (h₂ : Function.Injective fun i => f ⟨envNotch2, .notch2 i, .notch2 i, .none⟩)
    (h₃ : Function.Injective fun i =>
      f ⟨envPolyphaseFir, .polyphaseFir i, .polyphaseFir i, .none⟩)
    (h₁₂ : ∀ i j, f ⟨envNotch1, .notch1 i, .notch1 i, .none⟩ ≠
      f ⟨envNotch2, .notch2 j, .notch2 j, .none⟩)
    (h₁₃ : ∀ i j, f ⟨envNotch1, .notch1 i, .notch1 i, .none⟩ ≠
      f ⟨envPolyphaseFir, .polyphaseFir j, .polyphaseFir j, .none⟩)
    (h₂₃ : ∀ i j, f ⟨envNotch2, .notch2 i, .notch2 i, .none⟩ ≠
      f ⟨envPolyphaseFir, .polyphaseFir j, .polyphaseFir j, .none⟩) :
    (coeffMap.map f).Nodup := by
  simp only [coeffMap, List.map_append, List.map_map]
  refine List.Nodup.append ((List.nodup_finRange _).map h₁) (List.Nodup.append
    ((List.nodup_finRange _).map h₂) ((List.nodup_finRange _).map h₃) ?_) ?_
  · simp only [List.disjoint_left, List.mem_map]
    rintro _ ⟨i, -, rfl⟩ ⟨j, -, h⟩
    exact h₂₃ i j h.symm
  · simp only [List.disjoint_left, List.mem_map, List.mem_append]
    rintro _ ⟨i, -, rfl⟩ (⟨j, -, h⟩ | ⟨j, -, h⟩)
    · exact h₁₂ i j h.symm
    · exact h₁₃ i j h.symm

theorem coeffMap_fields : (coeffMap.map (·.field)).Nodup := by
  refine coeffMap_nodup ?_ ?_ ?_ nofun nofun nofun <;> exact fun i j h => by simpa using h

theorem coeffMap_codes : (coeffMap.map (·.code)).Nodup := by
  refine coeffMap_nodup ?_ ?_ ?_ nofun nofun nofun <;> exact fun i j h => by simpa using h

/-- The parameter is a coefficient of a filter. -/
def coefficient : CfgIndex → Bool
  | .notch1 _ | .notch2 _ | .polyphaseFir _ => true
  | _ => false

/-- The member of the structure is a coefficient of a filter. -/
def coefficientField : EnvField → Bool
  | .notch1 _ | .notch2 _ | .polyphaseFir _ => true
  | _ => false

theorem coeffMap_coefficient {e : ParamMap} (he : e ∈ coeffMap) :
    coefficient e.code = true ∧ coefficientField e.field = true := by
  simp only [coeffMap, List.mem_append, List.mem_map] at he
  obtain ⟨i, -, rfl⟩ | ⟨i, -, rfl⟩ | ⟨i, -, rfl⟩ := he <;> exact ⟨rfl, rfl⟩

theorem customSetMap_coefficient (decimation : Word) :
    (∀ c ∈ (customSetMap decimation).map (·.code), coefficient c = false) ∧
      ∀ f ∈ (customSetMap decimation).map (·.field), coefficientField f = false := by
  have hc : (customSetMap decimation).map (·.code) = (customSetMap 0).map (·.code) := rfl
  have hf : (customSetMap decimation).map (·.field) = (customSetMap 0).map (·.field) := rfl
  rw [hc, hf]
  decide

/-- No parameter stands in the tables twice. -/
theorem setMap_codes (decimation : Word) : ((setMap decimation).map (·.code)).Nodup := by
  have htrig : CfgIndex.trigmode ∉ (customSetMap decimation).map (·.code) := by
    have h : (customSetMap decimation).map (·.code) = (customSetMap 0).map (·.code) := rfl
    rw [h]
    decide
  have hcoeff : ∀ c ∈ coeffMap.map (·.code), coefficient c = true := by
    intro c hc
    obtain ⟨e, he, rfl⟩ := List.mem_map.1 hc
    exact (coeffMap_coefficient he).1
  rw [setMap, List.map_append, List.map_append, baseSetMap, List.map_cons, List.map_nil,
    List.singleton_append, List.nodup_cons, List.mem_append, not_or]
  refine ⟨⟨htrig, fun h => by cases hcoeff _ h⟩, (customSetMap_codes _).append coeffMap_codes ?_⟩
  rw [List.disjoint_left]
  intro c hc hc'
  have hno := (customSetMap_coefficient decimation).1 c hc
  rw [hcoeff c hc'] at hno
  cases hno

/-- The coefficients stand in no table before. -/
theorem coeffMap_later (decimation : Word) : ∀ e ∈ coeffMap,
    e.field ∉ (baseSetMap ++ customSetMap decimation).map (·.field) := by
  intro e he hf
  have hcoeff := (coeffMap_coefficient he).2
  rw [List.map_append, List.mem_append] at hf
  rcases hf with hf | hf
  · rw [List.mem_singleton.1 hf] at hcoeff
    cases hcoeff
  · rw [(customSetMap_coefficient decimation).2 _ hf] at hcoeff
    cases hcoeff

/-- The member of `CSPI_ENVPARAMS` that a parameter of the device is. -/
def envField : CfgIndex → Option EnvField
  | .trigmode => some .trigMode
  | .mcpll => some .pllMc
  | .scpll => some .pllSc
  | .featureCustomer => some .featureCustomer
  | .featureItech => some .featureItech
  | .xoffset => some .xoffset
  | .yoffset => some .yoffset
  | .qoffset => some .qoffset
  | .kx => some .kx
  | .ky => some .ky
  | .ilk m => some (.ilk m)
  | .pm m => some (.pm m)
  | .sr m => some (.sr m)
  | .sp m => some (.sp m)
  | .ilkstatus => some .ilkStatus
  | .pmoffset => some .pmOffset
  | .pmdec => some .pmDec
  | .extswitch => some .externalSwitching
  | .swdelay => some .switchingDelay
  | .ddcMaflength => some .ddcMaflength
  | .ddcMafdelay => some .ddcMafdelay
  | .trigdelay => some .trigDelay
  | .maxAdc => some .maxAdc
  | .averageSum => some .averageSum
  | .notch1 i => some (.notch1 i)
  | .notch2 i => some (.notch2 i)
  | .polyphaseFir i => some (.polyphaseFir i)
  | .dfa | .decDdc | .bcdXoffset | .bcdYoffset => none

/-! ## The call -/

/-- The configuration device as the library sees it, while the DSC server reports no new offsets. -/
def quietServe (g : Global) : Serves SysCall SysAns CfgWorld :=
  fun c x u u' => cfgServe g c x u u' ∧ ∀ m v, c = .dscMessage m v → u' = u

/-- The call sets nothing at the device. -/
def sparesDevice : SysCall → Prop
  | .setCfg _ _ _ => False
  | _ => True

theorem quietServe_spares {c : SysCall} {x : SysAns c} {v v' : CfgWorld} (hc : sparesDevice c)
    (hx : quietServe g c x v v') : v' = v := by
  obtain ⟨hx, hdsc⟩ := hx
  cases c with
  | setCfg => exact hc.elim
  | getCfg => exact hx.2
  | toattn => exact hx.2
  | dscMessage m v => exact hdsc m v rfl
  | hang | fault => exact x.elim
  | _ => exact hx

/-- What follows the tables in `custom_setenvparam` leaves the device alone. -/
theorem wlp_afterTables {r : ParamResult} :
    (r.andThen (ebppSetdscparam fd flags) >>= fun r => r.andThen (ebppSetPllparam flags)).wlp
      (quietServe g) (fun _ u' => u' = u) u := by
  have hspares : Only sparesDevice
      (r.andThen (ebppSetdscparam fd flags) >>= fun r => r.andThen (ebppSetPllparam flags)) :=
    only_setDaemons (fun _ _ => trivial) (fun _ => trivial) (fun _ _ _ => trivial) fun _ => trivial
  exact wlp_mono (wlp_frame hspares fun _ _ _ _ hc hx => quietServe_spares hc hx) fun _ _ h => h.2

/-- What a walk through a table has come to: its result, and the device. -/
def Walked (g : Global) (u : CfgWorld) (fd : Option File) (p : EnvParams) (flags : Bitmask)
    (es : List ParamMap) (r : ParamResult) (u' : CfgWorld) : Prop :=
  (r.1 = cspiOk ↔ allTaken g u fd p flags es) ∧
    (∀ f, f ∉ es.map (·.field) → r.2.val f = p.val f) ∧
    u' = u.setAll g (sentParams g u fd p flags es)

theorem setAll_append {ops ops' : List (CfgIndex × Word)} :
    u.setAll g (ops ++ ops') = (u.setAll g ops).setAll g ops' := by
  simp only [CfgWorld.setAll, CfgDevice.setAll, List.foldl_append]

/-- A walk through the next table. -/
theorem wlp_walk {r : ParamResult} {u₁ : CfgWorld} (h : Walked g u fd p flags es r u₁)
    (hn : (es'.map (·.field)).Nodup) (hdisj : ∀ e ∈ es', e.field ∉ es.map (·.field)) :
    (r.andThen (handleParams (setParam fd) flags es')).wlp (cfgServe g)
      (fun r' u' => Walked g u fd p flags (es ++ es') r' u') u₁ := by
  obtain ⟨hr, hframe, rfl⟩ := h
  have hp : ∀ e ∈ es', r.2.val e.field = p.val e.field := fun e he => hframe _ (hdisj e he)
  have hall : allTaken g u fd p flags (es ++ es') ↔
      allTaken g u fd p flags es ∧ allTaken g u fd p flags es' := List.forall_mem_append
  unfold ParamResult.andThen
  split
  · next hrc =>
    have htaken : allTaken g u fd p flags es := hr.1 hrc
    refine wlp_mono (wlp_handleParams hn) ?_
    rintro r' u' ⟨hr', hframe', rfl⟩
    refine ⟨?_, fun f hf => ?_, ?_⟩
    · rw [hall, and_iff_right htaken, hr']
      exact allTaken_congr (u := u) hp
    · rw [List.map_append, List.mem_append, not_or] at hf
      rw [hframe' f hf.2, hframe f hf.1]
    · rw [sentParams_append, if_pos htaken, setAll_append]
      exact congrArg (CfgWorld.setAll g _) (sentParams_congr (u := u) hp)
  · next hrc =>
    have htaken : ¬allTaken g u fd p flags es := fun h => hrc (hr.2 h)
    refine ⟨iff_of_false hrc fun h => htaken (hall.1 h).1, fun f hf => ?_, ?_⟩
    · rw [List.map_append, List.mem_append, not_or] at hf
      exact hframe f hf.1
    · rw [sentParams_append, if_neg htaken, List.append_nil]

/-- What the tables of a call have come to: the code, and the device. -/
def TablesDone (g : Global) (u : CfgWorld) (fd : Option File) (decimation : Word) (p : EnvParams)
    (flags : Bitmask) (r : ParamResult) (u' : CfgWorld) : Prop :=
  (r.1 = cspiOk ↔ allTaken g u fd p flags (setMap decimation) ∧ flags.hits envHealth = false ∧
    flags.hits envFeature = false) ∧
  (∀ f, f ∉ (setMap decimation).map (·.field) → r.2.val f = p.val f) ∧
  u' = u.setAll g (callSettings g u fd decimation p flags)

/-- The parts of `custom_setenvparam` that go through the tables, and what follows them. -/
theorem wlp_tables {serve : Serves SysCall SysAns CfgWorld} {Q : ParamResult → CfgWorld → Prop}
    {k : ParamResult → LibProg ParamResult} (decimation : Word)
    (hserve : ∀ c x v v', serve c x v v' → cfgServe g c x v v')
    (hk : ∀ r u', TablesDone g u fd decimation p flags r u' → (k r).wlp serve Q u') :
    (baseSetenvparam fd flags p >>= fun r =>
      r.andThen (handleParams (setParam fd) flags (customSetMap decimation)) >>= fun r =>
      r.andThen (handleParams (setParam fd) flags coeffMap) >>= k).wlp serve Q u := by
  refine wlp_seq (wlp_of_serves hserve wlp_baseSetenvparam) ?_
  rintro ⟨rc, p₁⟩ u₁ ⟨hr, hp₁, hu₁⟩
  cases hstop : flags.hits envHealth || flags.hits envFeature with
  | true =>
    have hrc : rc ≠ cspiOk := fun h => by simp [hr.1 h] at hstop
    have hskip : ∀ k, ParamResult.andThen (rc, p₁) k = Pure.pure (rc, p₁) := fun k => if_neg hrc
    simp only [hskip, pure_bind']
    refine hk _ _ ⟨iff_of_false hrc fun h => ?_, fun f hf => hp₁ f fun h => hf ?_, ?_⟩
    · simp [h.2] at hstop
    · exact h ▸ List.mem_cons_self
    · simpa only [callSettings, hstop, if_true] using hu₁
  | false =>
    have hfree : flags.hits envHealth = false ∧ flags.hits envFeature = false := by
      simpa using hstop
    have h₁ : Walked g u fd p flags baseSetMap (rc, p₁) u₁ :=
      ⟨hr.trans (and_iff_left hfree), fun f hf => hp₁ f (by simpa [baseSetMap] using hf), hu₁⟩
    have hcustom : ∀ e ∈ customSetMap decimation, e.field ∉ baseSetMap.map (·.field) := by
      intro e he hf
      have hf : e.field = .trigMode := List.mem_singleton.1 hf
      exact customSetMap_trigMode decimation (hf ▸ List.mem_map_of_mem (f := (·.field)) he)
    refine wlp_seq (wlp_of_serves hserve (wlp_walk h₁ (customSetMap_fields _) hcustom)) ?_
    rintro r₂ u₂ h₂
    refine wlp_seq (wlp_of_serves hserve (wlp_walk h₂ coeffMap_fields (coeffMap_later _))) ?_
    rintro r₃ u₃ ⟨hr₃, hp₃, h₃⟩
    rw [List.append_assoc] at hr₃ hp₃ h₃
    refine hk _ _ ⟨hr₃.trans (and_iff_left hfree).symm, hp₃, ?_⟩
    rw [h₃, callSettings, hstop]
    rfl

/-- **What a call does to the device** are its settings. -/
theorem wlp_setEnvparams_all (decimation : Word) :
    (setEnvparams fd decimation flags p).wlp (quietServe g)
      (fun _ u' => u' = u.setAll g (callSettings g u fd decimation p flags)) u := by
  refine wlp_tables decimation (fun _ _ _ _ hx => hx.1) ?_
  rintro r u' ⟨-, -, hu'⟩
  refine wlp_mono wlp_afterTables ?_
  rintro r' u'' rfl
  exact hu'

theorem wlp_setenvparam {h : Handle} : (l.setenvparam h p flags).wlp (quietServe g)
    (fun _ u' => u' = u.setAll g
      (if h = .env then callSettings g u l.env.fd l.decimation p flags else [])) u := by
  cases h with
  | null => exact rfl
  | con q =>
    rw [Lib.setenvparam, Lib.isHenv, wlp_bind, wlp_bind, wlp_deref]
    exact fun _ _ => rfl
  | env =>
    rw [Lib.setenvparam, wlp_bind, if_pos rfl]
    refine wlp_bind.2 (wlp_lock.2 fun _ => wlp_bind.2 (wlp_bind.2 ?_))
    exact wlp_mono (wlp_setEnvparams_all l.decimation) fun _ _ h => h

end LiberaDaq.Kernel
