import LiberaDaq.Calibration.World
import LiberaDaq.Cspi.Locks

/-!
# The refresh of the cache

When its queries are answered, `ebpp_update_cache` leaves a coherent cache (`wlp_updateCache`): each
of the parameters that the cache mirrors is fetched from its own source, and none of the sources
changes on the way. A cache that is not marked is not refreshed (`customInitop_clean`).
-/

namespace LiberaDaq.Calibration

open LiberaDaq.Interaction LiberaDaq.Cspi LiberaDaq.Kernel Prog

/-! ## Answers -/

/-- A query for a value that the cache mirrors was refused. -/
def Refused : SysEvent → Prop
  | ⟨.getCfg _ idx, x⟩ => cached idx = true ∧ x = none
  | ⟨.dscMessage _ _, x⟩ => x.1 ≠ cspiOk
  | ⟨.pllGetstatus, x⟩ => x.1 ≠ cspiOk
  | _ => False

/-- The system, when it refuses no such query. -/
def cacheAnswers (g : Global) : Serves SysCall SysAns CacheWorld :=
  fun c x u u' => cacheServe g c x u u' ∧ ¬Refused ⟨c, x⟩

variable {g : Global} {u : CacheWorld} {l : Lib} {f : File} {p : EnvParams} {flags : Bitmask}
  {es : List ParamMap}

/-- A query of the device for a mirrored value. -/
theorem cacheAnswers_getCfg {idx : CfgIndex} {x : Option Word} {u' : CacheWorld}
    (hi : cached idx) (h : cacheAnswers g (.getCfg f idx) x u u') :
    x = some (u.cfg.dev.param idx) ∧ u' = u := by
  obtain ⟨⟨hx, rfl⟩, hn⟩ := h
  have hx := hx.resolve_left fun h => hn ⟨hi, h⟩
  refine ⟨hx.trans ?_, rfl⟩
  cases idx with
  | xoffset | yoffset | qoffset | kx | ky | bcdXoffset | bcdYoffset => rfl
  | sr m => rfl
  | sp m => rfl
  | _ => cases hi

/-! ## The parameters of the device -/

/-- **A walk that gets mirrored parameters**: all of those that the flags select arrive in the
structure, and the other members stay. -/
theorem wlp_getParams (hn : (es.map (·.field)).Nodup)
    (hsel : ∀ e ∈ es, flags.hits e.mask = true → e.validate = .none ∧ cached e.code = true) :
    (handleParams (getParam (some f)) flags es p).wlp (cacheAnswers g) (fun r u' => u' = u ∧
      r.1 = cspiOk ∧
      (∀ e ∈ es, flags.hits e.mask = true → r.2.val e.field = u.cfg.dev.param e.code) ∧
      ∀ f, f ∉ es.map (·.field) → r.2.val f = p.val f) u := by
  induction es generalizing p with
  | nil => exact ⟨rfl, rfl, by simp, fun _ _ => rfl⟩
  | cons e es ih =>
    obtain ⟨he, hn⟩ := List.nodup_cons.1 hn
    obtain ⟨hsel₁, hsel⟩ := List.forall_mem_cons.1 hsel
    rw [handleParams]
    cases hf : flags.hits e.mask with
    | false =>
      refine wlp_mono (ih hn hsel) ?_
      rintro r u' ⟨rfl, hr, hval, hframe⟩
      refine ⟨rfl, hr, List.forall_mem_cons.2 ⟨fun h => ?_, hval⟩, fun f' hf' => ?_⟩
      · rw [hf] at h
        cases h
      · exact hframe f' fun h => hf' (List.mem_cons_of_mem _ h)
    | true =>
      obtain ⟨hv, hc⟩ := hsel₁ hf
      rw [if_pos rfl]
      refine wlp_bind.2 (wlp_perform_bind.2 fun x u' hx => ?_)
      obtain ⟨rfl, rfl⟩ := cacheAnswers_getCfg hc hx
      simp only [hv, Validator.run]
      change (handleParams (getParam (some f)) flags es
        (p.set e.field (u'.cfg.dev.param e.code))).wlp _ _ u'
      refine wlp_mono (ih hn hsel) ?_
      rintro r u' ⟨rfl, hr, hval, hframe⟩
      refine ⟨rfl, hr, List.forall_mem_cons.2 ⟨fun _ => ?_, hval⟩, fun f' hf' => ?_⟩
      · rw [hframe _ he]
        exact EnvParams.set_val_self _ _ _
      · rw [List.map_cons, List.mem_cons, not_or] at hf'
        rw [hframe f' hf'.2]
        exact EnvParams.set_val_of_ne _ hf'.1 _

/-- The structure holds the mirrored values, but for the offsets of the DSC server. -/
structure Fetched (p : EnvParams) (u : CacheWorld) : Prop where
  kx : p.val .kx = u.cfg.dev.param .kx
  ky : p.val .ky = u.cfg.dev.param .ky
  xoffset : p.val .xoffset = u.cfg.dev.param .xoffset
  yoffset : p.val .yoffset = u.cfg.dev.param .yoffset
  qoffset : p.val .qoffset = u.cfg.dev.param .qoffset
  sp : ∀ m, p.val (.sp m) = u.cfg.dev.param (.sp m)
  sr : ∀ m, p.val (.sr m) = u.cfg.dev.param (.sr m)

/-- The parameters of the cache are not among those of the base library. -/
theorem baseGetenvparam_cacheMask {fd : Option File} :
    baseGetenvparam fd cacheMask p = Pure.pure (cspiOk, p) := by
  have hbase : handleParams (getParam fd) cacheMask baseGetMap p = Pure.pure (cspiOk, p) := by
    have hnone : ∀ e ∈ baseGetMap, cacheMask.hits e.mask = false := by decide
    generalize baseGetMap = es at hnone
    induction es with
    | nil => rfl
    | cons e es ih =>
      obtain ⟨he, hnone⟩ := List.forall_mem_cons.1 hnone
      rw [handleParams, if_neg (by simp [he]), ih hnone]
  have hhealth : cacheMask.hits envHealth = false := by decide
  have hfeature : cacheMask.hits envFeature = false := by decide
  rw [baseGetenvparam, if_neg (by decide), hbase]
  simp [ParamResult.andThen, gethealthparam, getfeatureparam, hhealth, hfeature]

/-- The entry has no validator, and the cache mirrors its parameter. -/
def plain (e : ParamMap) : Bool :=
  match e.validate with
  | .none => cached e.code
  | _ => false

theorem plain_iff {e : ParamMap} : plain e = true ↔ e.validate = .none ∧ cached e.code = true := by
  obtain ⟨mask, code, field, v⟩ := e
  cases v <;> simp [plain]

/-- The flags of the cache select plain entries alone. -/
theorem customGetMap_plain :
    ∀ e ∈ customGetMap, cacheMask.hits e.mask = true → plain e = true := by decide

theorem wlp_customGetMap : (handleParams (getParam (some f)) cacheMask customGetMap p).wlp
    (cacheAnswers g) (fun r u' => u' = u ∧ r.1 = cspiOk ∧ Fetched r.2 u) u := by
  refine wlp_mono (wlp_getParams (by decide) fun e he hf =>
    plain_iff.1 (customGetMap_plain e he hf))
    ?_
  rintro r u' ⟨rfl, hr, hval, -⟩
  have hsp : ∀ m, paramSp m .none ∈ customGetMap := fun m => by cases m <;> simp [customGetMap]
  have hsr : ∀ m, paramSr m .none ∈ customGetMap := fun m => by cases m <;> simp [customGetMap]
  exact ⟨rfl, hr,
    { kx := hval ⟨envKx, .kx, .kx, .none⟩ (by simp [customGetMap]) (by decide)
      ky := hval ⟨envKy, .ky, .ky, .none⟩ (by simp [customGetMap]) (by decide)
      xoffset := hval ⟨envXoffset, .xoffset, .xoffset, .none⟩ (by simp [customGetMap]) (by decide)
      yoffset := hval ⟨envYoffset, .yoffset, .yoffset, .none⟩ (by simp [customGetMap]) (by decide)
      qoffset := hval ⟨envQoffset, .qoffset, .qoffset, .none⟩ (by simp [customGetMap]) (by decide)
      sp := fun m => hval (paramSp m .none) (hsp m) (show cacheMask.hits envSp = true by decide)
      sr := fun m => hval (paramSr m .none) (hsr m) (show cacheMask.hits envSr = true by decide) }⟩

/-- The DSC server tells its mode and the revolution frequency. -/
theorem wlp_dscGetMap (hp : Fetched p u) : (ebppDscHandleParams cacheMask dscGetMap p).wlp
    (cacheAnswers g) (fun r u' => u' = u ∧ r.1 = cspiOk ∧ Fetched r.2 u ∧ r.2.val .dsc = u.dsc)
    u := by
  have hswitch : cacheMask.hits envSwitch = false := by decide
  have hgain : cacheMask.hits envGain = false := by decide
  have hagc : cacheMask.hits envAgc = false := by decide
  have hdsc : cacheMask.hits envDsc = true := by decide
  have hfrev : cacheMask.hits envFrev = true := by decide
  have hvalid : ∀ m msg v p, (⟨m, msg, v, none⟩ : DscParamMap).valid p = true := fun _ _ _ _ => rfl
  simp only [dscGetMap, ebppDscHandleParams, hswitch, hgain, hagc, hdsc, hfrev, hvalid, if_true,
    Bool.false_eq_true, if_false]
  refine wlp_perform_bind.2 fun x u' hx => ?_
  obtain ⟨⟨hreply, rfl⟩, hok⟩ := hx
  obtain ⟨rc, reply⟩ := x
  obtain rfl : rc = cspiOk := by_contra hok
  obtain rfl : reply = some (u'.dsc.setWidth 64) := hreply rfl
  refine wlp_perform_bind.2 fun x u'' hx => ?_
  obtain ⟨hu, hok⟩ := hx
  obtain rfl : u'' = u' := hu
  obtain ⟨rc, reply⟩ := x
  obtain rfl : rc = cspiOk := by_contra hok
  have hfetched : ∀ v, Fetched { p.set .dsc u''.dsc with frev := v } u'' := fun v =>
    { kx := hp.kx, ky := hp.ky, xoffset := hp.xoffset, yoffset := hp.yoffset, qoffset := hp.qoffset
      sp := hp.sp, sr := hp.sr }
  have hwidth : (u''.dsc.setWidth 64).setWidth 32 = u''.dsc := by simp
  have hreceived : DscValue.received (.int .dsc) (u''.dsc.setWidth 64) p = p.set .dsc u''.dsc :=
    congrArg (p.set .dsc) hwidth
  simp only [Option.elim_some, hreceived]
  cases reply with
  | none => exact ⟨rfl, rfl, hfetched p.frev, EnvParams.set_val_self _ _ _⟩
  | some v => exact ⟨rfl, rfl, hfetched v, EnvParams.set_val_self p .dsc u''.dsc⟩

/-- What `custom_getenvparam` fetches for the cache. -/
theorem wlp_customGetenvparam : (customGetenvparam (some f) cacheMask p).wlp (cacheAnswers g)
    (fun r u' => u' = u ∧ r.1 = cspiOk ∧ Fetched r.2 u ∧ r.2.val .dsc = u.dsc) u := by
  rw [customGetenvparam, if_neg (by decide), baseGetenvparam_cacheMask, pure_bind']
  refine wlp_seq wlp_customGetMap ?_
  rintro ⟨rc, p₁⟩ u₁ ⟨rfl, rfl, h₁⟩
  refine wlp_seq (wlp_dscGetMap h₁) ?_
  rintro ⟨rc, p₂⟩ u₂ ⟨rfl, rfl, h₂, hdsc⟩
  change (ebppGetPllparam cacheMask p₂).wlp _ _ _
  rw [ebppGetPllparam, if_pos (by decide)]
  refine wlp_perform_bind.2 fun x u' hx => ?_
  obtain ⟨hu, hok⟩ := hx
  obtain rfl : u' = u₂ := hu
  exact ⟨rfl, by_contra hok, ⟨h₂.kx, h₂.ky, h₂.xoffset, h₂.yoffset, h₂.qoffset, h₂.sp, h₂.sr⟩, hdsc⟩

/-! ## The refresh -/

/-- **A refresh whose queries are answered leaves a coherent cache.** -/
theorem wlp_updateCache (hfd : l.env.fd.isSome) : l.ebppUpdateCache.wlp (cacheAnswers g)
    (fun r u' => u' = u ∧ r.1 = cspiOk ∧ r.2.dirty = l.dirty ∧ r.2.heap = l.heap ∧
      r.2.env = l.env ∧ Coherent r.2.cache u) u := by
  obtain ⟨f, hf⟩ := Option.isSome_iff_exists.1 hfd
  rw [Lib.ebppUpdateCache, hf]
  refine wlp_perform_bind.2 fun ep u' hx => ?_
  obtain rfl : u' = u := hx.1
  refine wlp_seq wlp_customGetenvparam ?_
  rintro ⟨rc, ep⟩ u₁ ⟨rfl, rfl, hep, hdsc⟩
  dsimp only
  rw [if_pos rfl]
  refine wlp_bind.2 (wlp_lockCache.2 fun _ => ?_)
  dsimp only
  rw [hf]
  refine wlp_perform_bind.2 fun x u₂ hx => ?_
  obtain ⟨rfl, rfl⟩ := cacheAnswers_getCfg rfl hx
  refine wlp_perform_bind.2 fun y u₃ hy => ?_
  obtain ⟨rfl, rfl⟩ := cacheAnswers_getCfg rfl hy
  refine ⟨rfl, rfl, rfl, rfl, rfl, ?_⟩
  exact
    { kx := hep.kx, ky := hep.ky, qoffset := hep.qoffset, sp := hep.sp, sr := hep.sr, srDsc := hdsc
      xoffset := congrArg (· + _) hep.xoffset
      yoffset := congrArg (· + _) hep.yoffset }

/-- **`custom_initop` on a marked cache.** -/
theorem wlp_customInitop (hfd : l.env.fd.isSome) (hd : l.dirty = true) :
    l.customInitop.wlp (cacheAnswers g) (fun r u' => u' = u ∧ r.1 = cspiOk ∧ r.2.dirty = false ∧
      r.2.heap = l.heap ∧ Coherent r.2.cache u) u := by
  rw [Lib.customInitop, if_pos hd]
  refine wlp_bind.2 (wlp_lock.2 fun _ => ?_)
  refine wlp_seq (wlp_updateCache hfd) ?_
  rintro ⟨rc, l'⟩ u' ⟨rfl, rfl, hd', hheap, -, hc⟩
  exact ⟨rfl, rfl, hd', hheap, hc⟩

theorem customInitop_clean (hd : l.dirty = false) : l.customInitop = Pure.pure (cspiOk, l) :=
  if_neg (by simp [hd])

end LiberaDaq.Calibration
