import LiberaDaq.Kernel.CfgCall
import LiberaDaq.Kernel.Interlock

/-!
# Reading parameters back

`cspi_getenvparam` reads the parameters that `cspi_setenvparam` sets. The two overflow limits are
kept beside their squares and the gain limit beside its attenuation, in the upper half of a word,
from where the tables of `custom_getenvparam` take them again.

What a call sets at the device is known (`wlp_tables`), so what is read afterwards is what the
structure had before the call, and everything else is as it was (`set_get_round_trip`).
-/

namespace LiberaDaq.Kernel

open LiberaDaq.Interaction LiberaDaq.Cspi Prog

variable {g : Global} {u u' : CfgWorld} {l l' : Lib} {fd : Option File} {p q : EnvParams}
  {flags : Bitmask} {es : List ParamMap} {e : ParamMap} {d d' : CfgDevice} {idx j : CfgIndex}
  {val : Word}

/-! ## Packed words -/

/-- A value in the upper half of a word, beside another one. -/
theorem packed_toNat (w v : Word) : ((w <<< 16) ||| (v &&& 0x0000ffff)).toNat =
    w.toNat % 2 ^ 16 * 2 ^ 16 + v.toNat % 2 ^ 16 := by
  have hv : v.toNat &&& 65535 = v.toNat % 2 ^ 16 := Nat.and_two_pow_sub_one_eq_mod _ 16
  have hw : w.toNat <<< 16 % 2 ^ 32 = (w.toNat % 2 ^ 16) <<< 16 := by
    rw [Nat.shiftLeft_eq, Nat.shiftLeft_eq]
    omega
  have hlt : v.toNat % 2 ^ 16 < 2 ^ 16 := Nat.mod_lt _ (by decide)
  rw [BitVec.toNat_or, BitVec.toNat_shiftLeft, BitVec.toNat_and, hw,
    show BitVec.toNat (65535 : Word) = 65535 from rfl, hv, ← Nat.shiftLeft_add_eq_or_of_lt hlt,
      Nat.shiftLeft_eq]

theorem packed_ushiftRight {w : Word} (v : Word) (hw : w.toNat < 2 ^ 16) :
    ((w <<< 16) ||| (v &&& 0x0000ffff)) >>> 16 = w := by
  refine BitVec.eq_of_toNat_eq ?_
  rw [BitVec.toNat_ushiftRight, packed_toNat, Nat.shiftRight_eq_div_pow]
  omega

/-- The word is an `int` of 16 bits. -/
def Fits16 (w : Word) : Prop := -2 ^ 15 ≤ w.toInt ∧ w.toInt < 2 ^ 15

theorem packed_sshiftRight {w : Word} (v : Word) (hw : Fits16 w) :
    ((w <<< 16) ||| (v &&& 0x0000ffff)).sshiftRight 16 = w := by
  obtain ⟨hlo, hhi⟩ := hw
  refine BitVec.eq_of_toInt_eq ?_
  rw [BitVec.toInt_sshiftRight, Int.shiftRight_eq_div_pow]
  have hpacked := packed_toNat w v
  rw [BitVec.toInt_eq_toNat_cond] at hlo hhi ⊢
  rw [BitVec.toInt_eq_toNat_cond, hpacked]
  split <;> split <;> omega

/-! ## One parameter -/

/-- The device reports the parameter as it was set. The coefficients of the filters cannot be read,
and the registers of the ADC and of the averages are not set. -/
def readable : CfgIndex → Bool
  | .trigmode | .mcpll | .scpll | .xoffset | .yoffset | .qoffset | .kx | .ky | .ilk _ | .pm _
  | .sr _ | .sp _ | .ilkstatus | .pmoffset | .pmdec | .extswitch | .swdelay | .trigdelay
  | .ddcMaflength | .ddcMafdelay => true
  | _ => false

theorem getCfg_readable (hj : readable j = true) : d.getCfg g j = some (d.value j) := by
  cases j with
  | ilk m | pm m | sr m | sp m => rfl
  | trigmode | mcpll | scpll | xoffset | yoffset | qoffset | kx | ky | ilkstatus | pmoffset
  | pmdec | extswitch | swdelay | trigdelay | ddcMaflength | ddcMafdelay => rfl
  | _ => cases hj

/-- What the device has of a parameter that was set. -/
theorem value_setCfg_self (h : d.setCfg g idx val = some d') (hi : readable idx = true)
    (hs : idx ≠ .ilkstatus) : d'.value idx = mirrored g idx val := by
  have hm : ∀ v, (d.mirror idx v).param idx = v := fun v => Function.update_self _ _ _
  cases idx with
  | ilk m =>
    cases m with
    | overflowLimit => exact setOverflowLimit_eq h ▸ hm _
    | overflowDur =>
      obtain ⟨-, h⟩ := Option.ite_none_right_eq_some.1 h
      exact Option.some.inj h ▸ hm _
    | gainLimit =>
      have h : (d.mirror (.ilk .gainLimit) val).commitIlk g = d' := Option.some.inj h
      exact h ▸ hm _
    | _ => exact Option.some.inj h ▸ hm _
  | pm m =>
    cases m with
    | overflowLimit => exact setOverflowLimit_eq h ▸ hm _
    | overflowDur =>
      obtain ⟨-, h⟩ := Option.ite_none_right_eq_some.1 h
      exact Option.some.inj h ▸ hm _
    | _ => exact Option.some.inj h ▸ hm _
  | sr m =>
    cases m with
    | averageWindow =>
      refine Eq.trans ?_ (hm val)
      rw [← Option.some.inj h]
      simp only [CfgDevice.value, CfgDevice.setAverageWindow]
      split <;> rfl
    | _ => exact Option.some.inj h ▸ hm _
  | sp m => cases m <;> exact Option.some.inj h ▸ hm _
  | ilkstatus => exact absurd rfl hs
  | ddcMaflength | ddcMafdelay => exact Option.some.inj h ▸ reg_writel_self
  | notch1 i | notch2 i | polyphaseFir i => cases hi
  | mcpll | scpll | featureCustomer | featureItech | dfa | decDdc | bcdXoffset | bcdYoffset | maxAdc
  | averageSum => cases h
  | _ => exact Option.some.inj h ▸ hm _

/-- Settings that name a parameter once. -/
theorem value_setAll_of_mem {ops : List (CfgIndex × Word)} (hn : (ops.map Prod.fst).Nodup)
    (h : (idx, val) ∈ ops) (hok : accepts g idx val) (hi : readable idx = true)
    (hs : idx ≠ .ilkstatus) : (d.setAll g ops).value idx = mirrored g idx val := by
  obtain ⟨a, b, rfl⟩ := List.append_of_mem h
  rw [List.map_append, List.map_cons] at hn
  have hb : idx ∉ b.map Prod.fst := (List.nodup_cons.1 hn.of_append_right).1
  obtain ⟨d', hd'⟩ := Option.isSome_iff_exists.1 ((setCfg_isSome (d := d.setAll g a)).trans hok)
  have hset : d.setAll g (a ++ (idx, val) :: b) = d'.setAll g b := by
    simp only [CfgDevice.setAll, List.foldl_append, List.foldl_cons]
    exact congrArg (fun d₁ => CfgDevice.setAll g d₁ b) (by rw [← CfgDevice.setAll, hd']; rfl)
  rw [hset, value_setAll_of_not_mem hb, value_setCfg_self hd' hi hs]

/-! ## Reading -/

/-- A validator of the tables for reading: it takes the value out of a word. -/
def Validator.decodes : Validator → Bool
  | .none | .getOverflowlimit | .getGainlimit => true
  | _ => false

theorem run_decodes (gains : Word → ℤ) {v : Validator} {w : Word}
    (hv : Validator.decodes v = true) :
    v.run w = Pure.pure (true, (evalValidator gains v w).2) := by
  cases v with
  | none | getOverflowlimit | getGainlimit => rfl
  | _ => cases hv

/-- The device when every query succeeds. -/
def answering (g : Global) : Serves SysCall SysAns CfgWorld
  | .getCfg _ idx, x, u, u' => x = u.dev.getCfg g idx ∧ u' = u
  | c, x, u, u' => cfgServe g c x u u'

/-- What reading an entry gives. -/
def reading (g : Global) (u : CfgWorld) (e : ParamMap) : Word :=
  (evalValidator u.gains e.validate ((u.dev.getCfg g e.code).getD 0)).2

/-- An entry that can be read. -/
def legible (e : ParamMap) : Bool := Validator.decodes e.validate && readable e.code

/-- What `get_param` does of an entry, when the device is open. -/
theorem wlp_getParam (he : legible e = true) : (getParam fd e q).wlp (answering g) (fun r u' =>
    u' = u ∧ (r.1 = cspiOk ↔ fd.isSome) ∧
      r.2 = if fd.isSome then q.set e.field (reading g u e) else q) u := by
  obtain ⟨hv, hc⟩ := Bool.and_eq_true_iff.1 he
  unfold getParam
  cases fd with
  | none => exact ⟨rfl, iff_of_false (show cspiESystem ≠ cspiOk by decide) (by simp), rfl⟩
  | some f =>
    refine wlp_bind.2 (wlp_perform.2 ?_)
    rintro _ u' ⟨rfl, rfl⟩
    rw [getCfg_readable hc]
    dsimp only
    rw [run_decodes u'.gains hv]
    refine ⟨rfl, by simp, ?_⟩
    simp only [reading, getCfg_readable hc, Option.getD_some, Option.isSome_some, if_true]

/-- The entries that the flags select can be read. -/
abbrev Selected (fd : Option File) (flags : Bitmask) (es : List ParamMap) : Prop :=
  ∀ e ∈ es, flags.hits e.mask = true → fd.isSome = true

/-- **A walk that reads** puts into the structure what the device has of the selected entries. -/
theorem wlp_handleParams_get (hes : ∀ e ∈ es, flags.hits e.mask = true → legible e = true)
    (hn : (es.map (·.field)).Nodup) :
    (handleParams (getParam fd) flags es q).wlp (answering g) (fun r u' => u' = u ∧
      (r.1 = cspiOk ↔ Selected fd flags es) ∧
      (r.1 = cspiOk → ∀ e ∈ es, flags.hits e.mask = true → r.2.val e.field = reading g u e) ∧
      ∀ f, f ∉ es.map (·.field) → r.2.val f = q.val f) u := by
  induction es generalizing q with
  | nil => exact ⟨rfl, by simp [Selected], by simp, fun _ _ => rfl⟩
  | cons e es ih =>
    obtain ⟨he, hes⟩ := List.forall_mem_cons.1 hes
    obtain ⟨hn₁, hn⟩ := List.nodup_cons.1 hn
    rw [handleParams]
    cases hf : flags.hits e.mask with
    | false =>
      refine wlp_mono (ih hes hn) ?_
      rintro r u' ⟨hu, hr, hval, hframe⟩
      refine ⟨hu, ?_, fun hrc => List.forall_mem_cons.2 ⟨fun h => ?_, hval hrc⟩, fun f hf => ?_⟩
      · rw [hr, Selected, Selected, List.forall_mem_cons]
        simp [hf]
      · rw [hf] at h
        cases h
      · exact hframe f fun h => hf (List.mem_cons_of_mem _ h)
    | true =>
      refine wlp_seq (wlp_getParam (he hf)) ?_
      rintro ⟨rc, q'⟩ u₁ ⟨rfl, hr, hq'⟩
      dsimp only at hr hq'
      have hother : ∀ f ≠ e.field, q'.val f = q.val f := fun f hne => by
        rw [hq']
        split
        · exact EnvParams.set_val_of_ne _ hne _
        · rfl
      unfold ParamResult.andThen
      split
      · next hrc =>
        have hfd : fd.isSome = true := hr.1 hrc
        refine wlp_mono (ih hes hn) ?_
        rintro r u' ⟨hu, hr', hval, hframe⟩
        refine ⟨hu, hr'.trans ?_, fun hrc' => List.forall_mem_cons.2 ⟨fun _ => ?_, hval hrc'⟩,
          fun f hf => ?_⟩
        · simp [Selected, hfd]
        · rw [hframe _ hn₁, hq', if_pos hfd, EnvParams.set_val_self]
        · rw [List.map_cons, List.mem_cons, not_or] at hf
          rw [hframe f hf.2, hother f hf.1]
      · next hrc =>
        refine ⟨rfl, iff_of_false hrc fun h => hrc (hr.2 (h e List.mem_cons_self hf)),
          fun h => absurd h hrc, fun f hf => hother f fun h => hf (h ▸ List.mem_cons_self)⟩

/-! ## The parameters that are set and read -/

/-- The flags of the parameters that both calls route to the configuration device. -/
def backedFlags : Bitmask :=
  envTrigmode ||| envKx ||| envKy ||| envXoffset ||| envYoffset ||| envQoffset ||| envIlk |||
    envIlkstatus ||| envPmoffset ||| envPmdec ||| envTrigdelay ||| envExtswitch ||| envSwdelay |||
    envDdcMaflength ||| envDdcMafdelay ||| envPm ||| envSr ||| envSp

/-- The flags select such parameters alone. -/
def Backed (flags : Bitmask) : Prop := flags &&& backedFlags = flags

theorem Backed.hits_eq_false (h : Backed flags) {m : Bitmask} (hm : backedFlags.hits m = false) :
    flags.hits m = false := by
  simp only [Bitmask.hits, bne_eq_false_iff_eq] at hm ⊢
  rw [← h, BitVec.and_assoc, hm]
  exact BitVec.and_zero

/-- The tables of `cspi_getenvparam`. -/
def getMap : List ParamMap := baseGetMap ++ customGetMap

/-- The validator that reads what another table sets. -/
def readValidator : CfgIndex → Validator
  | .ilk .overflowLimit | .pm .overflowLimit => .getOverflowlimit
  | .ilk .gainLimit => .getGainlimit
  | _ => .none

theorem eval_readValidator (gains : Word → ℤ) {gains' : Word → ℤ} {w : Word} :
    evalValidator gains' (readValidator idx) w = evalValidator gains (readValidator idx) w := by
  unfold readValidator
  split <;> rfl

/-- The entry that reads what an entry sets. -/
def readEntry (e : ParamMap) : ParamMap := { e with validate := readValidator e.code }

/-- The tables for reading have the entries of those for setting. -/
theorem getMap_backed (decimation : Word) : getMap.filter (fun e => backedFlags.hits e.mask) =
    (baseSetMap ++ customSetMap decimation).map readEntry := rfl

theorem mem_getMap (decimation : Word) (hb : Backed flags) (hf : flags.hits e.mask = true) :
    e ∈ getMap ↔ e ∈ (baseSetMap ++ customSetMap decimation).map readEntry := by
  have hmask : backedFlags.hits e.mask = true := by
    rw [← Bool.not_eq_false]
    intro h
    rw [hb.hits_eq_false h] at hf
    cases hf
  rw [← getMap_backed, List.mem_filter, and_iff_left hmask]

theorem getMap_legible (hb : Backed flags) : ∀ e ∈ getMap, flags.hits e.mask = true →
    legible e = true := by
  have hall : ((baseSetMap ++ customSetMap 0).map readEntry).all legible = true := rfl
  intro e he hf
  exact List.all_eq_true.1 hall e ((mem_getMap 0 hb hf).1 he)

/-- Only the gain limit is adapted by its validator when it is set. -/
def plainSetting (e : ParamMap) : Bool :=
  match e.validate, e.code with
  | .none, .ilk .gainLimit | .check _, .ilk .gainLimit => false
  | .none, _ | .check _, _ => true
  | .setGainlimit, .ilk .gainLimit => true
  | _, _ => false

theorem setMap_plain (decimation : Word) :
    (baseSetMap ++ customSetMap decimation).all plainSetting = true := rfl

theorem maxLimit_lt : (maxLimit g).toNat < 2 ^ 16 := by
  unfold maxLimit
  split <;> decide

/-- **Reading undoes setting**, for a value that both sides took. -/
theorem read_mirrored {gains : Word → ℤ} {w : Word} (hp : plainSetting e = true)
    (hgains : gains w ≠ -1 → Fits16 w) (hok : (evalValidator gains e.validate w).1 = true)
    (hacc : accepts g e.code (evalValidator gains e.validate w).2 = true) :
    (evalValidator gains (readValidator e.code)
      (mirrored g e.code (evalValidator gains e.validate w).2)).2 = w := by
  have hlimit : ∀ v : Word, v ≤ maxLimit g → (overflowEntry g v) >>> 16 = v := fun v hv =>
    packed_ushiftRight _ (lt_of_le_of_lt hv maxLimit_lt)
  obtain ⟨m, code, field, validate⟩ := e
  cases validate with
  | setGainlimit =>
    obtain rfl : code = .ilk .gainLimit := by
      cases code with
      | ilk m => cases m <;> first | rfl | cases hp
      | _ => cases hp
    dsimp only at hok hacc ⊢
    simp only [evalValidator] at hok ⊢
    split at hok
    · cases hok
    · next hg =>
      rw [if_neg hg]
      exact packed_sshiftRight _ (hgains hg)
  | none | check ok =>
    cases code with
    | ilk m =>
      cases m with
      | overflowLimit => exact hlimit w (of_decide_eq_true hacc)
      | gainLimit => cases hp
      | _ => rfl
    | pm m =>
      cases m with
      | overflowLimit => exact hlimit w (of_decide_eq_true hacc)
      | _ => rfl
    | _ => rfl
  | getOverflowlimit | getGainlimit => cases hp

/-! ## The calls -/

theorem getMap_fields : (getMap.map (·.field)).Nodup := by decide

theorem wlp_andThen {serve : Serves SysCall SysAns CfgWorld} {r : ParamResult}
    {k : EnvParams → LibProg ParamResult} {Q : ParamResult → CfgWorld → Prop}
    (hok : r.1 = cspiOk → (k r.2).wlp serve Q u) (hno : r.1 ≠ cspiOk → Q r u) :
    (r.andThen k).wlp serve Q u := by
  unfold ParamResult.andThen
  split
  · next hr => exact hok hr
  · next hr => exact hno hr

/-- A part of the call that has nothing to do. -/
theorem wlp_andThen_skip {serve : Serves SysCall SysAns CfgWorld} {r : ParamResult}
    {k : EnvParams → LibProg ParamResult} {Q : ParamResult → CfgWorld → Prop}
    (hk : ∀ p, k p = Pure.pure (cspiOk, p)) (h : Q r u) : (r.andThen k).wlp serve Q u := by
  refine wlp_andThen (fun hr => ?_) fun _ => h
  rw [hk, ← hr]
  exact h

/-- What a read of such parameters has come to. -/
structure ReadDone (g : Global) (u : CfgWorld) (fd : Option File) (flags : Bitmask)
    (es : List ParamMap) (r : ParamResult) (u' : CfgWorld) : Prop where
  same : u' = u
  ok : r.1 = cspiOk ↔ Selected fd flags es
  read : r.1 = cspiOk → ∀ e ∈ es, flags.hits e.mask = true → r.2.val e.field = reading g u e

theorem wlp_baseGetenvparam (hb : Backed flags) (h0 : flags ≠ 0) :
    (baseGetenvparam fd flags q).wlp (answering g) (ReadDone g u fd flags baseGetMap) u := by
  have hskip : ∀ m, backedFlags.hits m = false → flags.hits m = false := fun m => hb.hits_eq_false
  rw [baseGetenvparam, if_neg h0]
  refine wlp_seq (wlp_handleParams_get
    (fun e he => getMap_legible hb e (List.mem_append_left _ he)) (by decide)) ?_
  rintro r u' ⟨hu, hr, hval, -⟩
  refine wlp_seq (wlp_andThen_skip (fun p => ?_) (⟨hu, hr, hval⟩ : ReadDone g u fd flags _ r u')) ?_
  · rw [gethealthparam, hskip envHealth (by decide), if_neg Bool.false_ne_true]
  · intro r' u'' h
    refine wlp_andThen_skip (fun p => ?_) h
    rw [getfeatureparam, hskip envFeature (by decide), if_neg Bool.false_ne_true]

theorem wlp_customGetenvparam (hb : Backed flags) :
    (customGetenvparam fd flags q).wlp (answering g) (ReadDone g u fd flags getMap) u := by
  have hskip : ∀ m, backedFlags.hits m = false → flags.hits m = false := fun m => hb.hits_eq_false
  have hall : Selected fd flags getMap ↔
      Selected fd flags baseGetMap ∧ Selected fd flags customGetMap := List.forall_mem_append
  unfold customGetenvparam
  split
  · next h0 =>
    subst h0
    have hmask : ∀ m, ¬Bitmask.hits 0 m = true := fun m => by simp [Bitmask.hits]
    exact ⟨rfl, iff_of_true rfl fun e _ he => absurd he (hmask _),
      fun _ e _ he => absurd he (hmask _)⟩
  · next h0 =>
    have hcustom : ∀ r u₁, ReadDone g u fd flags baseGetMap r u₁ →
        (r.andThen (handleParams (getParam fd) flags customGetMap)).wlp (answering g)
          (ReadDone g u fd flags getMap) u₁ := by
      rintro r _ ⟨rfl, hr, hval⟩
      refine wlp_andThen (fun hrc => ?_) fun hrc =>
        ⟨rfl, iff_of_false hrc fun h => hrc (hr.2 (hall.1 h).1), fun h => absurd h hrc⟩
      refine wlp_mono (wlp_handleParams_get
        (fun e he => getMap_legible hb e (List.mem_append_right _ he)) (by decide)) ?_
      rintro r' u' ⟨hu, hr', hval', hframe⟩
      refine ⟨hu, hr'.trans ⟨fun h => hall.2 ⟨hr.1 hrc, h⟩, fun h => (hall.1 h).2⟩, fun hrc' => ?_⟩
      refine List.forall_mem_append.2 ⟨fun e he hf => ?_, hval' hrc'⟩
      have hne : e.field ∉ customGetMap.map (·.field) := by
        have hn := getMap_fields
        rw [getMap, List.map_append] at hn
        exact List.disjoint_of_nodup_append hn (List.mem_map_of_mem he)
      exact (hframe _ hne).trans (hval hrc e he hf)
    refine wlp_seq (wlp_baseGetenvparam hb h0) fun r u₁ h₁ => ?_
    refine wlp_seq (hcustom r u₁ h₁) fun r u₂ h₂ => ?_
    refine wlp_seq (wlp_andThen_skip (fun p => ?_) h₂) fun r u₃ h₃ => ?_
    · simp only [dscGetMap, ebppDscHandleParams, hskip envSwitch (by decide),
        hskip envGain (by decide), hskip envAgc (by decide), hskip envDsc (by decide),
        hskip envFrev (by decide), Bool.false_eq_true, if_false]
    · refine wlp_andThen_skip (fun p => ?_) h₃
      rw [ebppGetPllparam, hskip envLplldstat (by decide), if_neg Bool.false_ne_true]

theorem wlp_getenvparam (hb : Backed flags) : (l.getenvparam .env q flags).wlp (answering g)
    (fun r u' => ReadDone g u l.env.fd flags getMap r.1 u') u := by
  rw [Lib.getenvparam, wlp_bind]
  refine wlp_bind.2 (wlp_lock.2 fun _ => wlp_bind.2 ?_)
  exact wlp_mono (wlp_customGetenvparam hb) fun _ _ h => h

/-! ## What a call that succeeds has set -/

theorem sentParams_of_allTaken (h : allTaken g u fd p flags es) :
    sentParams g u fd p flags es = (es.filter (flags.hits ·.mask)).map (settingOf u p) := by
  have hall : ∀ e ∈ es.filter (flags.hits ·.mask), taken g u fd p e = true := fun e he =>
    h e (List.mem_filter.1 he).1 (List.mem_filter.1 he).2
  rw [sentParams, List.takeWhile_eq_self_iff.2 hall]

/-- The offsets that the DSC server reports are none of these parameters. -/
theorem value_bcdOffsets {x y : Word} (hj : readable j = true) :
    (d.bcdOffsets x y).value j = d.value j := by
  have hone : ∀ (d : CfgDevice) (v : Word) (i k : CfgIndex) (r : CfgRegister),
      i = .bcdXoffset ∨ i = .bcdYoffset → r = .faOffset 0 ∨ r = .faOffset 1 →
      (d.checkAndUpdate v i k r).value j = d.value j := by
    intro d v i k r hi hr
    unfold CfgDevice.checkAndUpdate
    split
    · have hij : j ≠ i := by
        rintro rfl
        obtain rfl | rfl := hi <;> cases hj
      have hparam : ((d.mirror i v).writel (v + d.param k) r).param j = d.param j :=
        param_mirror_of_ne hij
      cases j with
      | ddcMaflength | ddcMafdelay =>
        refine reg_writel_of_ne ?_
        obtain rfl | rfl := hr <;> nofun
      | _ => exact hparam
    · rfl
  exact (hone _ _ _ _ _ (.inr rfl) (.inr rfl)).trans (hone _ _ _ _ _ (.inl rfl) (.inl rfl))

/-- What follows the tables leaves the parameters as they are. -/
theorem wlp_rest_values {r : ParamResult} :
    (r.andThen (ebppSetdscparam fd flags) >>= fun r => r.andThen (ebppSetPllparam flags)).wlp
      (cfgServe g) (fun _ u' => ∀ j, readable j = true → u'.dev.value j = u.dev.value j) u := by
  have hspares : Only sparesDevice
      (r.andThen (ebppSetdscparam fd flags) >>= fun r => r.andThen (ebppSetPllparam flags)) :=
    only_setDaemons (fun _ _ => trivial) (fun _ => trivial) (fun _ _ _ => trivial) fun _ => trivial
  refine wlp_mono (wlp_keep hspares ?_ fun _ _ => rfl) fun _ _ h => h.2
  intro c x v v' hc hx hv j hj
  cases c with
  | setCfg => exact hc.elim
  | getCfg | toattn => exact hx.2 ▸ hv j hj
  | dscMessage m w =>
    obtain ⟨x, y, rfl⟩ := hx
    exact (value_bcdOffsets hj).trans (hv j hj)
  | hang | fault => exact x.elim
  | _ => exact (show v' = v from hx) ▸ hv j hj

/-- What a call that succeeds has done: all selected entries were taken, and the parameters are
those after the settings. -/
structure SetDone (g : Global) (u : CfgWorld) (fd : Option File) (decimation : Word) (p : EnvParams)
    (flags : Bitmask) (u' : CfgWorld) : Prop where
  taken : allTaken g u fd p flags (setMap decimation)
  value : ∀ j, readable j = true → u'.dev.value j =
    (u.setAll g (sentParams g u fd p flags (setMap decimation))).dev.value j

theorem wlp_setEnvparams_ok (decimation : Word) : (setEnvparams fd decimation flags p).wlp
    (cfgServe g) (fun r u' => r.1 = cspiOk → SetDone g u fd decimation p flags u') u := by
  refine wlp_tables decimation (fun _ _ _ _ hx => hx) ?_
  rintro r u₁ ⟨hr, -, hu₁⟩
  by_cases hrc : r.1 = cspiOk
  · obtain ⟨hall, hhealth, hfeature⟩ := hr.1 hrc
    refine wlp_mono wlp_rest_values fun r' u' h _ => ⟨hall, fun j hj => ?_⟩
    rw [h j hj, hu₁, callSettings, hhealth, hfeature]
    rfl
  · have hstop : ∀ k, r.andThen k = Pure.pure r := fun k => if_neg hrc
    simp only [hstop, pure_bind']
    exact fun h => absurd h hrc

theorem wlp_setenvparam_ok {h : Handle} : (l.setenvparam h p flags).wlp (cfgServe g)
    (fun r u' => r.1.1 = cspiOk → h = .env ∧ r.2.env.fd = l.env.fd ∧ r.2.env.mutex = false ∧
      SetDone g u l.env.fd l.decimation p flags u') u := by
  have hno : cspiEInvalidHandle ≠ cspiOk := by decide
  cases h with
  | null => exact fun h => absurd h hno
  | con q =>
    rw [Lib.setenvparam, Lib.isHenv, wlp_bind, wlp_bind, wlp_deref]
    exact fun _ _ h => absurd h hno
  | env =>
    rw [Lib.setenvparam, wlp_bind]
    refine wlp_bind.2 (wlp_lock.2 fun _ => wlp_bind.2 (wlp_bind.2 ?_))
    exact wlp_mono (wlp_setEnvparams_ok l.decimation) fun _ _ h hrc => ⟨rfl, rfl, rfl, h hrc⟩

/-- A parameter that the flags do not select is as before. -/
theorem SetDone.value_unselected {decimation : Word} (h : SetDone g u fd decimation p flags u')
    (he : e ∈ setMap decimation) (hf : flags.hits e.mask = false) (hj : readable e.code = true) :
    u'.dev.value e.code = u.dev.value e.code := by
  rw [h.value _ hj]
  refine value_setAll_of_not_mem fun hmem => ?_
  rw [sentParams_of_allTaken h.taken, List.map_map, List.mem_map] at hmem
  obtain ⟨e', he', hcode⟩ := hmem
  rw [List.mem_filter] at he'
  obtain rfl : e' = e := List.inj_on_of_nodup_map (setMap_codes decimation) he'.1 he hcode
  rw [hf] at he'
  cases he'.2

/-- A parameter that they select is as it was set. -/
theorem SetDone.value_selected {decimation : Word} (h : SetDone g u fd decimation p flags u')
    (he : e ∈ setMap decimation) (hf : flags.hits e.mask = true) (hj : readable e.code = true)
    (hs : e.code ≠ .ilkstatus) :
    u'.dev.value e.code = mirrored g e.code (settingOf u p e).2 := by
  have hsent := sentParams_of_allTaken h.taken
  have hmem : settingOf u p e ∈ sentParams g u fd p flags (setMap decimation) := by
    rw [hsent]
    exact List.mem_map_of_mem (List.mem_filter.2 ⟨he, hf⟩)
  rw [h.value _ hj]
  refine value_setAll_of_mem ?_ hmem (sentParams_accepted hmem) hj hs
  exact (setMap_codes decimation).sublist sentParams_sublist

/-! ## The round trip -/

/-- A run of `cspi_setenvparam`. -/
def SetRun (g : Global) (l : Lib) (u : CfgWorld) (h : Handle) (p : EnvParams) (flags : Bitmask)
    (rc : ℤ) (l' : Lib) (u' : CfgWorld) : Prop :=
  ∃ tr p', (l.setenvparam h p flags).Runs tr ((rc, p'), l') ∧ Served (cfgServe g) tr u u'

/-- A run of `cspi_getenvparam` whose queries succeed. -/
def GetRun (g : Global) (l : Lib) (u : CfgWorld) (h : Handle) (q : EnvParams) (flags : Bitmask)
    (rc : ℤ) (q' : EnvParams) : Prop :=
  ∃ tr l' u', (l.getenvparam h q flags).Runs tr ((rc, q'), l') ∧ Served (answering g) tr u u'

theorem GetRun.done {rc : ℤ} {q' : EnvParams} (hb : Backed flags)
    (h : GetRun g l u .env q flags rc q') : ReadDone g u l.env.fd flags getMap (rc, q') u := by
  obtain ⟨tr, l', u', hr, hs⟩ := h
  obtain ⟨hu, hok, hread⟩ := hr.of_wlp hs (wlp_getenvparam hb)
  exact ⟨rfl, hok, hread⟩

/-- While the environment is not locked, `cspi_getenvparam` returns. -/
theorem exists_getRun (hm : l.env.mutex = false) :
    ∃ rc q', GetRun g l u .env q flags rc q' := by
  have honly : Only (fun c => ∀ v, ∃ x v', answering g c x v v') (l.getenvparam .env q flags) := by
    rw [Lib.getenvparam, Lib.isHenv]
    refine only_seq (only_pure _) fun _ => only_ite ?_ (only_pure _)
    rw [Lib.lock, if_neg (by simp [hm])]
    refine only_seq (only_pure _) fun _ => only_seq (only_customGetenvparam ?_ ?_ ?_ ?_ ?_) fun _ =>
      only_pure _
    · exact fun w v => ⟨v.gains w, v, rfl, rfl⟩
    · exact fun f idx v => ⟨v.dev.getCfg g idx, v, rfl, rfl⟩
    · exact fun v => ⟨(0, ⟨none, fun _ => none, fun _ => none⟩), v, rfl⟩
    · exact fun v => ⟨(0, id), v, rfl⟩
    · exact fun _ _ _ w v => ⟨(0, none), { v with dev := v.dev.bcdOffsets 0 0 }, 0, 0, rfl⟩
  obtain ⟨tr, ⟨⟨rc, q'⟩, l'⟩, u', hr, hs⟩ := exists_served honly (fun c v hc => hc v) u
  exact ⟨rc, q', tr, l', u', hr, hs⟩

/-- What is set is read: after a call of `cspi_setenvparam` that succeeded, a call of
`cspi_getenvparam` for the same parameters returns the values that the structure had, but for the
status of the interlock, and any other parameter is read as before. -/
structure ReadsBack (g : Global) (l : Lib) (u : CfgWorld) (h : Handle) (p : EnvParams)
    (flags : Bitmask) (l' : Lib) (u' : CfgWorld) : Prop where
  returns : ∀ q, ∃ rc q', GetRun g l' u' h q flags rc q'
  read : ∀ q rc q', GetRun g l' u' h q flags rc q' → rc = cspiOk ∧
    ∀ e ∈ getMap, flags.hits e.mask = true → e.code ≠ .ilkstatus → q'.val e.field = p.val e.field
  kept : ∀ others, Backed others → ∀ q q₀ q₁ rc, GetRun g l u h q others cspiOk q₀ →
    GetRun g l' u' h q others rc q₁ → rc = cspiOk ∧
      ∀ e ∈ getMap, others.hits e.mask = true → flags.hits e.mask = false →
        q₁.val e.field = q₀.val e.field

/-- **Parameters are read back as they were set.** -/
theorem set_get_round_trip (g : Global) (l l' : Lib) (u u' : CfgWorld) (h : Handle) (p : EnvParams)
    (flags : Bitmask) (hflags : Backed flags) (hgains : ∀ w, u.gains w ≠ -1 → Fits16 w)
    (hset : SetRun g l u h p flags cspiOk l' u') : ReadsBack g l u h p flags l' u' := by
  obtain ⟨tr, p', hr, hs⟩ := hset
  obtain ⟨rfl, hfd, hm, hdone⟩ := hr.of_wlp hs wlp_setenvparam_ok rfl
  have hentry : ∀ {fl : Bitmask} {e : ParamMap}, Backed fl → e ∈ getMap → fl.hits e.mask = true →
      ∃ e' ∈ setMap l.decimation, plainSetting e' = true ∧ readEntry e' = e := by
    intro fl e hb he hf
    obtain ⟨e', he', rfl⟩ := List.mem_map.1 ((mem_getMap l.decimation hb hf).1 he)
    refine ⟨e', ?_, List.all_eq_true.1 (setMap_plain _) e' he', rfl⟩
    rw [setMap, ← List.append_assoc]
    exact List.mem_append_left _ he'
  have hreadable : ∀ {fl : Bitmask} {e : ParamMap}, Backed fl → e ∈ getMap →
      fl.hits e.mask = true → readable e.code = true := fun hb he hf =>
    (Bool.and_eq_true_iff.1 (getMap_legible hb _ he hf)).2
  refine ⟨fun q => exists_getRun hm, fun q rc q' hget => ?_,
    fun others hothers q q₀ q₁ rc hbefore hafter => ?_⟩
  · obtain ⟨-, hok, hread⟩ := hget.done hflags
    have hselected : Selected l'.env.fd flags getMap := by
      intro e he hf
      obtain ⟨e', he', -, rfl⟩ := hentry hflags he hf
      have htaken := hdone.taken e' he' hf
      simp only [taken, Bool.and_eq_true, Option.any_eq_true] at htaken
      obtain ⟨f, hf', -⟩ := htaken.1.2
      rw [hfd, hf']
      rfl
    have hrc : rc = cspiOk := hok.2 hselected
    refine ⟨hrc, fun e he hf hs => ?_⟩
    rw [hread hrc e he hf]
    have hj := hreadable hflags he hf
    obtain ⟨e', he', hplain, rfl⟩ := hentry hflags he hf
    have htaken := hdone.taken e' he' hf
    simp only [taken, settingOf, Bool.and_eq_true] at htaken
    rw [reading, getCfg_readable hj, Option.getD_some]
    change (evalValidator u'.gains (readValidator e'.code) (u'.dev.value e'.code)).2 = _
    rw [eval_readValidator u.gains, hdone.value_selected he' hf hj hs]
    exact read_mirrored hplain (hgains _) htaken.1.1 htaken.2
  · obtain ⟨-, hok₀, hread₀⟩ := hbefore.done hothers
    obtain ⟨-, hok₁, hread₁⟩ := hafter.done hothers
    have hrc : rc = cspiOk := hok₁.2 (hfd ▸ hok₀.1 rfl)
    refine ⟨hrc, fun e he hf hno => ?_⟩
    rw [hread₁ hrc e he hf, hread₀ rfl e he hf]
    have hj := hreadable hothers he hf
    obtain ⟨e', he', -, rfl⟩ := hentry hothers he hf
    rw [reading, reading, getCfg_readable hj, getCfg_readable hj]
    change (evalValidator _ (readValidator _) (u'.dev.value e'.code)).2 =
      (evalValidator _ (readValidator _) (u.dev.value e'.code)).2
    rw [eval_readValidator u.gains, hdone.value_unselected he' hno hj]

/-- The world of `cfgStart` with a table of one gain. -/
def listedStart : CfgWorld := { cfgStart with gains := fun w => if w = 1 then 20 else -1 }

set_option maxRecDepth 4000 in
theorem fullCall_sets : ((fullCall.lib.setenvparam .env fullCall.params envIlk).exec
    (cfgHandler brilliance) listedStart).map (·.1.1.1) = some cspiOk := by
  decide

theorem set_get_round_trip_ilk : ∃ l' u',
    SetRun brilliance fullCall.lib listedStart .env fullCall.params envIlk cspiOk l' u' ∧
      ReadsBack brilliance fullCall.lib listedStart .env fullCall.params envIlk l' u' := by
  obtain ⟨⟨⟨⟨rc, p'⟩, l'⟩, u', tr⟩, he, hrc⟩ := Option.map_eq_some_iff.1 fullCall_sets
  obtain rfl : rc = cspiOk := hrc
  have hset : SetRun brilliance fullCall.lib listedStart .env fullCall.params envIlk cspiOk l' u' :=
    ⟨tr, p', Prog.exec_runs he, Prog.exec_served cfgHandler_serves he⟩
  refine ⟨l', u', hset, set_get_round_trip _ _ _ _ _ _ _ _ rfl (fun w hw => ?_) hset⟩
  have hone : w = 1 := by
    by_contra h
    exact hw (if_neg h)
  subst hone
  exact ⟨by decide, by decide⟩

end LiberaDaq.Kernel
