import LiberaDaq.Kernel.CfgShared

/-!
# Setting and reading parameters in company

What a process sets is known from its own calls (`noting_setenvparam`), and these are answered as if
it was alone: the file that settings are taken from stays that of the process (`seenBy_master`). What
it reads is what its queries gave (`asking_getenvparam`), each of them at a moment of its own.
-/

namespace LiberaDaq.Kernel

open LiberaDaq.Cspi LiberaDaq.Interaction Prog

variable {ι : Type} [DecidableEq ι] {g : Global} {gains : Word → ℤ} {i : ι} {u : CfgWorld}
  {fd : Option File} {p q : EnvParams} {flags : Bitmask} {e : ParamMap} {es es' : List ParamMap}
  {s : List (CfgIndex × Word)} {v w : SharedCfg ι}

/-! ## What a call sets, in any company -/

/-- The setting of a request of the library that the device took. -/
def taking : Event SysCall SysAns → Option (CfgIndex × Word)
  | ⟨.setCfg _ idx val, taken⟩ => if taken then some (idx, val) else none
  | _ => none

/-- The answer is that of the device, as far as a call that sets depends on it. -/
def Fits (g : Global) (u : CfgWorld) : Event SysCall SysAns → Prop
  | ⟨.setCfg f idx val, x⟩ => x = (decide (u.master = some f) && accepts g idx val)
  | ⟨.toattn w, x⟩ => x = u.gains w
  | _ => True

/-- The settings are noted down, and the device answers as it would without company. -/
def noting (g : Global) (u : CfgWorld) : Serves SysCall SysAns (List (CfgIndex × Word)) :=
  fun c x s s' => gather taking c x s s' ∧ Fits g u ⟨c, x⟩

theorem noting_validator {v : Validator} {x : Word} {Q : Bool × Word → List (CfgIndex × Word) → Prop}
    (h : Q (evalValidator u.gains v x) s) : (v.run x).wlp (noting g u) Q s := by
  cases v with
  | setGainlimit =>
    rw [Validator.run, wlp_perform_bind]
    rintro _ s' ⟨rfl, hx⟩
    obtain rfl := hx
    simp only [evalValidator, taking, Option.toList_none, List.append_nil] at h ⊢
    split at h <;> simp_all
  | _ => exact h

/-- What a walk through tables has come to: its result, and what was set. -/
def Noted (g : Global) (u : CfgWorld) (fd : Option File) (p : EnvParams) (flags : Bitmask)
    (es : List ParamMap) (s : List (CfgIndex × Word)) (r : ParamResult)
    (s' : List (CfgIndex × Word)) : Prop :=
  (r.1 = cspiOk ↔ allTaken g u fd p flags es) ∧
    (∀ f, f ∉ es.map (·.field) → r.2.val f = p.val f) ∧ s' = s ++ sentParams g u fd p flags es

theorem noting_setParam : (setParam fd e p).wlp (noting g u) (fun r s' =>
    (r.1 = cspiOk ↔ taken g u fd p e) ∧ r.2 = p.set e.field (settingOf u p e).2 ∧
      s' = s ++ (if taken g u fd p e then [settingOf u p e] else [])) s := by
  unfold setParam
  refine wlp_bind.2 (noting_validator ?_)
  rcases hv : evalValidator u.gains e.validate (p.val e.field) with ⟨ok, x⟩
  simp only [taken, settingOf, hv]
  cases ok with
  | false => exact ⟨by simp, rfl, by simp⟩
  | true =>
    cases fd with
    | none => exact ⟨by simp, rfl, by simp⟩
    | some f =>
      rw [if_pos rfl]
      refine wlp_bind.2 (wlp_perform.2 ?_)
      rintro x' s' ⟨rfl, hx⟩
      obtain rfl := hx
      simp only [Option.any_some, Bool.true_and]
      cases htaken : decide (u.master = some f) && accepts g e.code x with
      | true => exact ⟨by simp, rfl, by simp [taking]⟩
      | false => exact ⟨by simp, rfl, by simp [taking]⟩

theorem noting_handleParams (hn : (es.map (·.field)).Nodup) :
    (handleParams (setParam fd) flags es p).wlp (noting g u) (Noted g u fd p flags es s) s := by
  induction es generalizing p s with
  | nil => exact ⟨by simp [allTaken], fun _ _ => rfl, (List.append_nil s).symm⟩
  | cons e es ih =>
    obtain ⟨he, hn⟩ := List.nodup_cons.1 hn
    rw [handleParams]
    cases hf : flags.hits e.mask with
    | false =>
      apply wlp_mono (ih hn)
      intro r s' h
      obtain ⟨hr, hframe, hs'⟩ := h
      refine ⟨by simp [allTaken_cons, hf, hr], fun f hf => ?_, by simp [sentParams_cons, hf, hs']⟩
      exact hframe f fun h => hf (List.mem_cons_of_mem _ h)
    | true =>
      apply wlp_seq noting_setParam
      rintro ⟨rc, p'⟩ s₁ ⟨hr, hp', rfl⟩
      dsimp only at hr hp' he
      have hother : ∀ f ≠ e.field, p'.val f = p.val f := fun f hne => by
        rw [hp', EnvParams.set_val_of_ne _ hne]
      unfold ParamResult.andThen
      cases ht : taken g u fd p e with
      | false =>
        have hrc : ¬rc = cspiOk := by simpa [ht] using hr
        rw [if_neg hrc]
        refine ⟨by simp [allTaken_cons, hf, ht, hrc], fun f hf => ?_, ?_⟩
        · exact hother f fun h => hf (h ▸ List.mem_cons_self)
        · simp [sentParams_cons, hf, ht]
      | true =>
        have hp : ∀ e' ∈ es, p'.val e'.field = p.val e'.field := fun e' he' =>
          hother _ fun h => he (h ▸ List.mem_map_of_mem (f := (·.field)) he')
        rw [if_pos (hr.2 ht)]
        apply wlp_mono (ih hn)
        rintro r s' ⟨hr', hframe, rfl⟩
        refine ⟨?_, fun f hf => ?_, ?_⟩
        · rw [hr', allTaken_cons]
          simp only [hf, ht, imp_self, true_and]
          exact allTaken_congr hp
        · rw [List.map_cons, List.mem_cons, not_or] at hf
          rw [hframe f hf.2, hother f hf.1]
        · rw [sentParams_cons, if_pos hf, if_pos ht, sentParams_congr hp]
          simp

/-- A walk through the next table. -/
theorem noting_walk {r : ParamResult} {s₁ : List (CfgIndex × Word)}
    (h : Noted g u fd p flags es s r s₁) (hn : (es'.map (·.field)).Nodup)
    (hdisj : ∀ e ∈ es', e.field ∉ es.map (·.field)) :
    (r.andThen (handleParams (setParam fd) flags es')).wlp (noting g u)
      (Noted g u fd p flags (es ++ es') s) s₁ := by
  obtain ⟨hr, hframe, rfl⟩ := h
  have hp : ∀ e ∈ es', r.2.val e.field = p.val e.field := fun e he => hframe _ (hdisj e he)
  have hall : allTaken g u fd p flags (es ++ es') ↔
      allTaken g u fd p flags es ∧ allTaken g u fd p flags es' := List.forall_mem_append
  unfold ParamResult.andThen
  split
  · next hrc =>
    have htaken : allTaken g u fd p flags es := hr.1 hrc
    apply wlp_mono (noting_handleParams hn)
    rintro r' s' ⟨hr', hframe', rfl⟩
    refine ⟨?_, fun f hf => ?_, ?_⟩
    · rw [hall, and_iff_right htaken, hr']
      exact allTaken_congr hp
    · rw [List.map_append, List.mem_append, not_or] at hf
      rw [hframe' f hf.2, hframe f hf.1]
    · rw [sentParams_append, if_pos htaken, sentParams_congr hp, List.append_assoc]
  · next hrc =>
    have htaken : ¬allTaken g u fd p flags es := fun h => hrc (hr.2 h)
    refine ⟨iff_of_false hrc fun h => htaken (hall.1 h).1, fun f hf => ?_, ?_⟩
    · rw [List.map_append, List.mem_append, not_or] at hf
      exact hframe f hf.1
    · rw [sentParams_append, if_neg htaken, List.append_nil]

theorem noting_baseSetenvparam : (baseSetenvparam fd flags p).wlp (noting g u) (fun r s' =>
    (r.1 = cspiOk ↔ allTaken g u fd p flags baseSetMap ∧ flags.hits envHealth = false ∧
      flags.hits envFeature = false) ∧
    (∀ f, f ∉ baseSetMap.map (·.field) → r.2.val f = p.val f) ∧
    s' = s ++ sentParams g u fd p flags baseSetMap) s := by
  unfold baseSetenvparam
  split
  · next h0 =>
    subst h0
    have hmask : ∀ m, Bitmask.hits 0 m = false := fun m => by simp [Bitmask.hits]
    refine ⟨iff_of_true rfl ⟨fun e _ he => ?_, hmask _, hmask _⟩, fun _ _ => rfl, ?_⟩
    · rw [hmask] at he
      cases he
    · have hnone : sentParams g u fd p 0 baseSetMap = [] := by
        rw [baseSetMap, sentParams_cons, hmask]
        rfl
      rw [hnone, List.append_nil]
  · apply wlp_seq (noting_handleParams (by decide))
    rintro ⟨rc, p'⟩ s₁ ⟨hr, hframe, hs₁⟩
    unfold ParamResult.andThen
    split
    · next hrc =>
      refine ⟨?_, hframe, hs₁⟩
      rw [← hr, and_iff_right (show rc = cspiOk from hrc)]
      cases flags.hits envHealth <;> cases flags.hits envFeature <;>
        simp [cspiEIllegalCall, cspiOk]
    · next hrc => exact ⟨iff_of_false hrc fun h => hrc (hr.2 h.1), hframe, hs₁⟩

/-- The settings of `custom_setenvparam`, and what its code says of them. -/
theorem noting_setEnvparams (decimation : Word) :
    (setEnvparams fd decimation flags p).wlp (noting g u) (fun r s' =>
      (r.1 = cspiOk → allTaken g u fd p flags (setMap decimation) ∧
        flags.hits envHealth = false ∧ flags.hits envFeature = false) ∧
        s' = s ++ callSettings g u fd decimation p flags) s := by
  have hrest : ∀ (r : ParamResult) (s₁ : List (CfgIndex × Word)),
      (r.andThen (ebppSetdscparam fd flags) >>= fun r => r.andThen (ebppSetPllparam flags)).wlp
        (noting g u) (fun r' s' => (r'.1 = cspiOk → r.1 = cspiOk) ∧ s' = s₁) s₁ := by
    intro r s₁
    have hspares : Only sparesDevice
        (r.andThen (ebppSetdscparam fd flags) >>= fun r => r.andThen (ebppSetPllparam flags)) :=
      only_setDaemons (fun _ _ => trivial) (fun _ => trivial) (fun _ _ _ => trivial)
        fun _ => trivial
    by_cases hr : r.1 = cspiOk
    · have hsame : ∀ c x t t', sparesDevice c → noting g u c x t t' → t' = t := by
        intro c x t t' hc h
        cases c with
        | setCfg => exact hc.elim
        | _ => simpa [noting, gather, taking] using h.1
      exact wlp_mono (wlp_frame hspares hsame) fun _ _ h => ⟨fun _ => hr, h.2⟩
    · unfold ParamResult.andThen
      rw [if_neg hr, pure_bind', if_neg hr]
      exact ⟨fun h => h, rfl⟩
  apply wlp_seq noting_baseSetenvparam
  rintro ⟨rc, p₁⟩ s₁ ⟨hr, hp₁, hs₁⟩
  cases hstop : flags.hits envHealth || flags.hits envFeature with
  | true =>
    have hrc : rc ≠ cspiOk := fun h => by simp [hr.1 h] at hstop
    have hskip : ∀ k, ParamResult.andThen (rc, p₁) k = Pure.pure (rc, p₁) := fun k => if_neg hrc
    simp only [hskip, pure_bind']
    refine ⟨fun h => absurd h hrc, ?_⟩
    simpa only [callSettings, hstop, if_true] using hs₁
  | false =>
    have hfree : flags.hits envHealth = false ∧ flags.hits envFeature = false := by
      simpa using hstop
    have h₁ : Noted g u fd p flags baseSetMap s (rc, p₁) s₁ :=
      ⟨hr.trans (and_iff_left hfree), hp₁, hs₁⟩
    have hcustom : ∀ e ∈ customSetMap decimation, e.field ∉ baseSetMap.map (·.field) := by
      intro e he hf
      have hf : e.field = .trigMode := List.mem_singleton.1 hf
      exact customSetMap_trigMode decimation (hf ▸ List.mem_map_of_mem (f := (·.field)) he)
    apply wlp_seq (noting_walk h₁ (customSetMap_fields _) hcustom)
    intro r₂ s₂ h₂
    apply wlp_seq (noting_walk h₂ coeffMap_fields (coeffMap_later _))
    rintro r₃ s₃ ⟨hr₃, -, rfl⟩
    rw [List.append_assoc] at hr₃ ⊢
    apply wlp_mono (hrest r₃ _)
    rintro r s' ⟨hok, rfl⟩
    refine ⟨fun h => ⟨hr₃.1 (hok h), hfree⟩, ?_⟩
    rw [callSettings, hstop]
    rfl

/-- **The settings of a call**, alone or in company. -/
theorem noting_setenvparam {l : Lib} {h : Handle} : (l.setenvparam h p flags).wlp (noting g u)
    (fun r s' => (r.1.1 = cspiOk → h = .env ∧
        allTaken g u l.env.fd p flags (setMap l.decimation) ∧
        flags.hits envHealth = false ∧ flags.hits envFeature = false) ∧
      s' = s ++ if h = .env then callSettings g u l.env.fd l.decimation p flags else []) s := by
  have hno : cspiEInvalidHandle ≠ cspiOk := by decide
  cases h with
  | null => exact ⟨fun h => absurd h hno, by simp⟩
  | con q =>
    rw [Lib.setenvparam, Lib.isHenv, wlp_bind, wlp_bind, wlp_deref]
    exact fun _ _ => ⟨fun h => absurd h hno, by simp⟩
  | env =>
    rw [Lib.setenvparam, wlp_bind, if_pos rfl]
    refine wlp_bind.2 (wlp_lock.2 fun _ => wlp_bind.2 (wlp_bind.2 ?_))
    exact wlp_mono (noting_setEnvparams l.decimation) fun _ _ h => ⟨fun hrc => ⟨rfl, h.1 hrc⟩, h.2⟩

/-! ## What a call reads -/

/-- The answer of a query. -/
def queryIn : Event SysCall SysAns → Option (CfgIndex × Word)
  | ⟨.getCfg _ idx, some w⟩ => some (idx, w)
  | _ => none

/-- The queries are noted down. -/
abbrev asking : Serves SysCall SysAns (List (CfgIndex × Word)) := gather queryIn

/-- What a walk that reads has come to: a selected member has what a query gave. -/
def Asked (flags : Bitmask) (es : List ParamMap) (s : List (CfgIndex × Word)) (q : EnvParams)
    (r : ParamResult) (s' : List (CfgIndex × Word)) : Prop :=
  s <+: s' ∧ (∀ f, f ∉ es.map (·.field) → r.2.val f = q.val f) ∧
    (r.1 = cspiOk → ∀ e ∈ es, flags.hits e.mask = true → ∃ w, (e.code, w) ∈ s' ∧
      r.2.val e.field = (evalValidator (fun _ => 0) e.validate w).2)

theorem asking_getParam (he : Validator.decodes e.validate = true) :
    (getParam fd e q).wlp asking (Asked flags [e] s q) s := by
  unfold getParam
  cases fd with
  | none => exact ⟨List.prefix_rfl, fun _ _ => rfl, by simp⟩
  | some f =>
    refine wlp_bind.2 (wlp_perform.2 ?_)
    rintro x s' rfl
    cases x with
    | none => exact ⟨by simp [queryIn], fun _ _ => rfl, by simp⟩
    | some w =>
      dsimp only
      rw [run_decodes (fun _ => 0) he]
      refine ⟨List.prefix_append _ _, fun f hf => ?_, fun _ e' he' _ => ?_⟩
      · exact EnvParams.set_val_of_ne _ (by simpa using hf) _
      · obtain rfl := List.mem_singleton.1 he'
        exact ⟨w, by simp [queryIn], EnvParams.set_val_self _ _ _⟩

theorem asking_handleParams (hes : ∀ e ∈ es, Validator.decodes e.validate = true)
    (hn : (es.map (·.field)).Nodup) :
    (handleParams (getParam fd) flags es q).wlp asking (Asked flags es s q) s := by
  induction es generalizing q s with
  | nil => exact ⟨List.prefix_rfl, fun _ _ => rfl, by simp⟩
  | cons e es ih =>
    obtain ⟨he, hes⟩ := List.forall_mem_cons.1 hes
    obtain ⟨hn₁, hn⟩ := List.nodup_cons.1 hn
    rw [handleParams]
    cases hf : flags.hits e.mask with
    | false =>
      apply wlp_mono (ih hes hn)
      rintro r s' ⟨hs, hframe, hval⟩
      refine ⟨hs, fun f hf => hframe f fun h => hf (List.mem_cons_of_mem _ h), fun hrc => ?_⟩
      refine List.forall_mem_cons.2 ⟨fun h => ?_, hval hrc⟩
      rw [hf] at h
      cases h
    | true =>
      have hfirst : (getParam fd e q).wlp asking (Asked flags [e] s q) s := asking_getParam he
      apply wlp_seq hfirst
      rintro ⟨rc, q'⟩ s₁ ⟨hs₁, hframe₁, hval₁⟩
      unfold ParamResult.andThen
      split
      · next hrc =>
        obtain ⟨w, hw, hval⟩ := hval₁ hrc e List.mem_cons_self hf
        apply wlp_mono (ih hes hn)
        rintro r s' ⟨hs', hframe, hrest⟩
        refine ⟨hs₁.trans hs', fun f hf => ?_, fun hrc' => List.forall_mem_cons.2 ⟨fun _ => ?_, ?_⟩⟩
        · rw [List.map_cons, List.mem_cons, not_or] at hf
          rw [hframe f hf.2, hframe₁ f (by simpa using hf.1)]
        · exact ⟨w, hs'.subset hw, by rw [hframe _ hn₁, hval]⟩
        · exact hrest hrc'
      · next hrc =>
        refine ⟨hs₁, fun f hf => hframe₁ f ?_, fun h => absurd h hrc⟩
        exact fun h => hf (List.mem_cons.2 (.inl (List.mem_singleton.1 h)))

/-- The members that no part of `cspi_getenvparam` but the tables fills in. -/
def tabled (f : EnvField) : Prop := f ∈ getMap.map (·.field)

theorem tabled_ne {f f' : EnvField} (h : tabled f) (h' : f' ∉ getMap.map (·.field)) : f ≠ f' :=
  fun hf => h' (hf ▸ h)

theorem put_tabled {f f' : EnvField} {x : Option Word} (h : tabled f)
    (h' : f' ∉ getMap.map (·.field)) : (p.put f' x).val f = p.val f := by
  cases x with
  | none => rfl
  | some x => exact EnvParams.set_val_of_ne p (tabled_ne h h') x

theorem setHealth_tabled {h : Health} {f : EnvField} (hf : tabled f) :
    (p.setHealth h).val f = p.val f := by
  have hfold : ∀ {n : ℕ} (k : Fin n → EnvField) (x : Fin n → Option Word) (is : List (Fin n))
      (p : EnvParams), (∀ i, k i ∉ getMap.map (·.field)) →
      (is.foldl (fun p i => p.put (k i) (x i)) p).val f = p.val f := by
    intro n k x is p hk
    induction is generalizing p with
    | nil => rfl
    | cons i is ih => exact (ih (p.put (k i) (x i))).trans (put_tabled hf (hk i))
  unfold EnvParams.setHealth
  rw [hfold .voltage h.voltage _ _ (by decide), hfold .fan h.fan _ _ (by decide),
    put_tabled hf (by decide)]

/-- A part of the call that leaves the tabled members alone. -/
def SparesTabled (k : EnvParams → LibProg ParamResult) : Prop :=
  ∀ q s, (k q).wlp asking (fun r s' => s <+: s' ∧ ∀ f, tabled f → r.2.val f = q.val f) s

theorem spares_health : SparesTabled (gethealthparam flags) := by
  intro q s
  unfold gethealthparam
  split
  · refine wlp_perform_bind.2 ?_
    rintro x s' rfl
    exact ⟨by simp [queryIn], fun f hf => setHealth_tabled hf⟩
  · exact ⟨List.prefix_rfl, fun _ _ => rfl⟩

theorem spares_feature : SparesTabled (getfeatureparam fd flags) := by
  intro q s
  have hset : ∀ {f f' : EnvField} {q : EnvParams} {w : Word}, tabled f →
      f' ∉ getMap.map (·.field) → (q.set f' w).val f = q.val f := fun h h' =>
    EnvParams.set_val_of_ne _ (tabled_ne h h') _
  unfold getfeatureparam
  split
  · cases fd with
    | none => exact ⟨List.prefix_rfl, fun _ _ => rfl⟩
    | some f =>
      refine wlp_bind.2 (wlp_perform.2 ?_)
      rintro x s₁ rfl
      cases x with
      | none => exact ⟨List.prefix_append _ _, fun _ _ => rfl⟩
      | some x =>
        refine wlp_bind.2 (wlp_perform.2 ?_)
        rintro y s₂ rfl
        cases y with
        | none =>
          refine ⟨?_, fun f hf => hset hf (by decide)⟩
          rw [List.append_assoc]
          exact List.prefix_append _ _
        | some y =>
          refine ⟨?_, fun f hf => (hset hf (by decide)).trans (hset hf (by decide))⟩
          rw [List.append_assoc]
          exact List.prefix_append _ _
  · exact ⟨List.prefix_rfl, fun _ _ => rfl⟩

theorem spares_dsc {es : List DscParamMap}
    (hes : ∀ e ∈ es, ∀ f, e.value = .int f → f ∉ getMap.map (·.field)) :
    SparesTabled (ebppDscHandleParams flags es) := by
  induction es with
  | nil => exact fun q s => ⟨List.prefix_rfl, fun _ _ => rfl⟩
  | cons e es ih =>
    obtain ⟨he, hes⟩ := List.forall_mem_cons.1 hes
    have ih := ih hes
    intro q s
    unfold ebppDscHandleParams
    split
    · split
      · refine wlp_perform_bind.2 ?_
        rintro ⟨rc, reply⟩ s₁ rfl
        have hreceived : ∀ f, tabled f →
            (reply.elim q fun v => e.value.received v q).val f = q.val f := by
          intro f hf
          cases reply with
          | none => rfl
          | some v =>
            cases hv : e.value with
            | int f' => exact EnvParams.set_val_of_ne _ (tabled_ne hf (he f' hv)) _
            | frev | none => rfl
        have hs : s <+: s ++ (queryIn ⟨.dscMessage e.msg (e.value.sent q), (rc, reply)⟩).toList :=
          List.prefix_append _ _
        dsimp only [ParamResult.andThen]
        split
        · apply wlp_mono (ih _ _)
          intro r s' h
          exact ⟨hs.trans h.1, fun f hf => (h.2 f hf).trans (hreceived f hf)⟩
        · exact ⟨hs, hreceived⟩
      · exact ⟨List.prefix_rfl, fun _ _ => rfl⟩
    · exact ih q s

theorem spares_pll : SparesTabled (ebppGetPllparam flags) := by
  intro q s
  unfold ebppGetPllparam
  split
  · refine wlp_perform_bind.2 ?_
    rintro ⟨rc, f⟩ s' rfl
    exact ⟨List.prefix_append _ _, fun _ _ => rfl⟩
  · exact ⟨List.prefix_rfl, fun _ _ => rfl⟩

theorem asking_andThen {r : ParamResult} {k : EnvParams → LibProg ParamResult} (hk : SparesTabled k) :
    (r.andThen k).wlp asking (fun r' s' => s <+: s' ∧ (r'.1 = cspiOk → r.1 = cspiOk) ∧
      ∀ f, tabled f → r'.2.val f = r.2.val f) s := by
  unfold ParamResult.andThen
  split
  · next hr => exact wlp_mono (hk r.2 s) fun _ _ h => ⟨h.1, fun _ => hr, h.2⟩
  · exact ⟨List.prefix_rfl, id, fun _ _ => rfl⟩

/-- What the call has read so far. -/
def Got (flags : Bitmask) (es : List ParamMap) (r : ParamResult) (s : List (CfgIndex × Word)) :
    Prop :=
  r.1 = cspiOk → ∀ e ∈ es, flags.hits e.mask = true → ∃ w, (e.code, w) ∈ s ∧
    r.2.val e.field = (evalValidator (fun _ => 0) e.validate w).2

theorem Got.later {r r' : ParamResult} {s' : List (CfgIndex × Word)} (h : Got flags es r s)
    (hes : es ⊆ getMap) (hs : s <+: s') (hok : r'.1 = cspiOk → r.1 = cspiOk)
    (hval : ∀ f, tabled f → r'.2.val f = r.2.val f) : Got flags es r' s' := by
  intro hr e he hf
  obtain ⟨w, hw, hv⟩ := h (hok hr) e he hf
  exact ⟨w, hs.subset hw, (hval _ (List.mem_map_of_mem (hes he))).trans hv⟩

theorem getMap_decodes : ∀ e ∈ getMap, Validator.decodes e.validate = true := by decide

theorem dscGetMap_untabled :
    ∀ e ∈ dscGetMap, ∀ f, e.value = .int f → f ∉ getMap.map (·.field) := by
  intro e he f hf
  simp only [dscGetMap, List.mem_cons, List.not_mem_nil, or_false] at he
  rcases he with rfl | rfl | rfl | rfl | rfl <;> cases hf <;> decide

theorem asking_baseGetenvparam :
    (baseGetenvparam fd flags q).wlp asking (Got flags baseGetMap) s := by
  have hsub : baseGetMap ⊆ getMap := List.subset_append_left _ _
  unfold baseGetenvparam
  split
  · next h0 =>
    subst h0
    intro _ e _ hf
    simp [Bitmask.hits] at hf
  · apply wlp_seq (asking_handleParams (fun e he => getMap_decodes e (hsub he)) (by decide))
    rintro r s₁ ⟨-, -, hgot⟩
    apply wlp_seq (asking_andThen spares_health)
    rintro r₁ s₂ ⟨hs₂, hok₁, hval₁⟩
    apply wlp_mono (asking_andThen spares_feature)
    rintro r₂ s₃ ⟨hs₃, hok₂, hval₂⟩
    have hgot : Got flags baseGetMap r s₁ := hgot
    exact (hgot.later hsub hs₂ hok₁ hval₁).later hsub hs₃ hok₂ hval₂

theorem asking_customGetenvparam :
    (customGetenvparam fd flags q).wlp asking (Got flags getMap) s := by
  have hbase : baseGetMap ⊆ getMap := List.subset_append_left _ _
  have hcustom : customGetMap ⊆ getMap := List.subset_append_right _ _
  unfold customGetenvparam
  split
  · next h0 =>
    subst h0
    intro _ e _ hf
    simp [Bitmask.hits] at hf
  · apply wlp_seq asking_baseGetenvparam
    intro r s₁ hgot
    have htables : (r.andThen (handleParams (getParam fd) flags customGetMap)).wlp asking
        (Got flags getMap) s₁ := by
      unfold ParamResult.andThen
      split
      · next hr =>
        apply wlp_mono (asking_handleParams (fun e he => getMap_decodes e (hcustom he)) (by decide))
        rintro r' s' ⟨hs', hframe, hread⟩ hr'
        refine List.forall_mem_append.2 ⟨fun e he hf => ?_, hread hr'⟩
        obtain ⟨w, hw, hv⟩ := hgot hr e he hf
        have hn := getMap_fields
        rw [getMap, List.map_append] at hn
        have hne : e.field ∉ customGetMap.map (·.field) :=
          List.disjoint_of_nodup_append hn (List.mem_map_of_mem he)
        exact ⟨w, hs'.subset hw, (hframe _ hne).trans hv⟩
      · next hr => exact fun h => absurd h hr
    apply wlp_seq htables
    intro r₁ s₂ hgot₁
    apply wlp_seq (asking_andThen (spares_dsc dscGetMap_untabled))
    rintro r₂ s₃ ⟨hs₃, hok₂, hval₂⟩
    apply wlp_mono (asking_andThen spares_pll)
    rintro r₃ s₄ ⟨hs₄, hok₃, hval₃⟩
    exact (hgot₁.later (List.Subset.refl _) hs₃ hok₂ hval₂).later (List.Subset.refl _) hs₄ hok₃ hval₃

/-- **The members that a call has read** are what the queries gave. -/
theorem asking_getenvparam {l : Lib} {h : Handle} : (l.getenvparam h q flags).wlp asking
    (fun r s' => Got flags getMap r.1 s') s := by
  have hno : cspiEInvalidHandle ≠ cspiOk := by decide
  cases h with
  | null => exact fun h => absurd h hno
  | con c =>
    rw [Lib.getenvparam, Lib.isHenv, wlp_bind, wlp_bind, wlp_deref]
    exact fun _ _ h => absurd h hno
  | env =>
    rw [Lib.getenvparam, wlp_bind]
    refine wlp_bind.2 (wlp_lock.2 fun _ => wlp_bind.2 ?_)
    exact wlp_mono asking_customGetenvparam fun _ _ h => h

/-! ## What the company leaves alone -/

/-- A process makes no signal while it is in a call of the library. -/
def Calls (i : ι) (m : List (ShareEntry ι)) (tr : List (Event SysCall SysAns)) : Prop :=
  own i m = tr.map leftEvent

/-- Who may set is not changed by the others, nor by the calls of the library. -/
theorem seenBy_master {m : List (ShareEntry ι)} {tr : List (Event SysCall SysAns)}
    (h : Followed (shareServe g gains) m v w) (hm : Calls i m tr) :
    (w.seenBy gains i).master = (v.seenBy gains i).master := by
  have hcalls : ∀ e ∈ m, e.1 = i → ∃ c, e.2.1 = .inl c := by
    rintro ⟨j, c, x⟩ he rfl
    have hown : (⟨c, x⟩ : Event ShareCall ShareAns) ∈ own j m := mem_own.2 he
    rw [hm] at hown
    obtain ⟨e', -, he'⟩ := List.mem_map.1 hown
    exact ⟨e'.1, congrArg Sigma.fst he'.symm⟩
  refine h.keeps (I := fun x => (x.seenBy gains i).master = (v.seenBy gains i).master) ?_ rfl
  rintro ⟨j, c, x⟩ he a b hab ha
  rw [← ha]
  cases c with
  | inl c =>
    obtain ⟨u, -, rfl⟩ := hab
    rfl
  | inr c =>
    have hj : j ≠ i := by
      intro hj
      obtain ⟨c', hc'⟩ := hcalls _ he hj
      cases hc'
    cases c with
    | interlock | bcdOffsets =>
      obtain rfl := hab
      rfl
    | opened f =>
      obtain ⟨hfree, rfl⟩ := hab
      cases x with
      | false => rfl
      | true =>
        have hnone : a.master = none := hfree.1 rfl
        simp [SharedCfg.seenBy, hnone, hj]
    | closed f =>
      obtain rfl := hab
      dsimp only [shareServe]
      split
      · next hmine => simp [SharedCfg.seenBy, hmine, hj]
      · rfl

theorem seenBy_eq_some {f : File} :
    (w.seenBy gains i).master = some f ↔ w.master = some (i, f) := by
  obtain ⟨dev, master⟩ := w
  cases master with
  | none => simp [SharedCfg.seenBy]
  | some m =>
    obtain ⟨j, f'⟩ := m
    by_cases hj : j = i <;> simp [SharedCfg.seenBy, hj]

/-- Only the file of the process that may set makes a setting. -/
theorem master_of_setting {e : ShareEntry ι} {op : CfgIndex × Word}
    (h : shareServe g gains e.1 e.2.1 e.2.2 v w) (hop : settingIn e.2 = some op) :
    ∃ f, v.master = some (e.1, f) := by
  obtain ⟨j, c, x⟩ := e
  cases c with
  | inr c => cases hop
  | inl c =>
    cases c with
    | setCfg f idx val =>
      obtain ⟨u, hu, -⟩ := h
      simp only [cfgServe] at hu
      split at hu
      · next hmaster => exact ⟨f, seenBy_eq_some.1 hmaster⟩
      · rw [settingIn, hu.1] at hop
        cases hop
    | _ => cases hop

theorem settingIn_leftEvent : (settingIn ∘ leftEvent : Event SysCall SysAns → _) = taking := by
  funext e
  obtain ⟨c, x⟩ := e
  cases c <;> rfl

/-- What a process sets by its own calls. -/
theorem Calls.filterMap_setting {m : List (ShareEntry ι)} {tr : List (Event SysCall SysAns)}
    (h : Calls i m tr) : (own i m).filterMap settingIn = tr.filterMap taking := by
  rw [h, List.filterMap_map, settingIn_leftEvent]

/-- The calls of a process are answered as without company, as far as it matters to its settings. -/
theorem fits_own {a b : ShareState ι} {m : List (ShareEntry ι)} {tr : List (Event SysCall SysAns)}
    (h : Crowd.Between (shareServe g gains) a b m) (hm : Calls i m tr) :
    ∀ e ∈ tr, Fits g (a.1.seenBy gains i) e := by
  rintro ⟨c, x⟩ he
  have hown : leftEvent ⟨c, x⟩ ∈ own i m := hm ▸ List.mem_map_of_mem he
  obtain ⟨l, l', y, rfl, hl, -, z, u, hu, -⟩ := h.split (mem_own.1 hown)
  rw [Calls, own_append] at hm
  obtain ⟨tr₁, tr₂, rfl, hcalls, -⟩ := List.map_eq_append_iff.1 hm.symm
  have hmaster := seenBy_master hl.followed hcalls.symm
  cases c with
  | setCfg f idx val =>
    simp only [cfgServe, hmaster] at hu
    simp only [Fits]
    split at hu
    · next hf =>
      have hx : x = (y.1.dev.setCfg g idx val).isSome := hu.1
      rw [hx, setCfg_isSome, decide_eq_true hf, Bool.true_and]
    · next hf =>
      have hx : x = false := hu.1
      rw [hx, decide_eq_false hf, Bool.false_and]
  | toattn x' => exact hu.1
  | _ => trivial

theorem settings_of_own {m : List (ShareEntry ι)}
    (h : ∀ e ∈ m, ∀ op, settingIn e.2 = some op → e.1 = i) :
    settings m = ((own i m).filterMap settingIn).map (i, ·) := by
  induction m with
  | nil => rfl
  | cons e m ih =>
    have ih := ih fun e' he' => h e' (List.mem_cons_of_mem e he')
    obtain ⟨j, ev⟩ := e
    simp only [settings, own, List.filterMap_cons] at ih ⊢
    cases hop : settingIn ev with
    | none => by_cases hj : j = i <;> simpa [hj, hop] using ih
    | some op =>
      obtain rfl : j = i := h _ List.mem_cons_self op hop
      simpa [hop] using ih

/-- While a process sets, no one else does. -/
theorem settings_alone {a b : ShareState ι} {m : List (ShareEntry ι)}
    {tr : List (Event SysCall SysAns)} (h : Crowd.Between (shareServe g gains) a b m)
    (hm : Calls i m tr) (hne : (own i m).filterMap settingIn ≠ []) :
    settings m = ((own i m).filterMap settingIn).map (i, ·) := by
  have hmaster : ∀ e ∈ m, ∀ op, settingIn e.2 = some op →
      ∃ f y, y.master = some (e.1, f) ∧
        (SharedCfg.seenBy gains y i).master = (a.1.seenBy gains i).master := by
    intro e he op hop
    obtain ⟨l, l', y, rfl, hl, -, z, hz⟩ := h.split he
    obtain ⟨f, hf⟩ := master_of_setting hz hop
    rw [Calls, own_append] at hm
    obtain ⟨tr₁, tr₂, rfl, hcalls, -⟩ := List.map_eq_append_iff.1 hm.symm
    exact ⟨f, y.1, hf, seenBy_master hl.followed hcalls.symm⟩
  obtain ⟨op, hop⟩ := List.exists_mem_of_ne_nil _ hne
  obtain ⟨ev, hev, hop⟩ := List.mem_filterMap.1 hop
  obtain ⟨f, y, hy, hsame⟩ := hmaster _ (mem_own.1 hev) op hop
  rw [seenBy_eq_some.2 hy] at hsame
  have hmine : ∀ e ∈ m, ∀ op, settingIn e.2 = some op → e.1 = i := by
    intro e he op hop
    obtain ⟨f', y', hy', hsame'⟩ := hmaster e he op hop
    rw [← hsame] at hsame'
    have hi := hy'.symm.trans (seenBy_eq_some.1 hsame')
    exact congrArg Prod.fst (Option.some.inj hi)
  exact settings_of_own hmine

/-! ## Every run -/

/-- The calls that an operation of the library makes are calls of the library. -/
theorem runs_lifted {p : LibProg (ParamResult × Lib)} {tr : List (Event ShareCall ShareAns)}
    {r : Option ParamResult}
    (h : (p.liftLeft >>= fun a => Pure.pure (some a.1) :
      Prog ShareCall ShareAns (Option ParamResult)).Runs tr r) :
    ∃ tr' a, tr = tr'.map leftEvent ∧ p.Runs tr' a ∧ r = some a.1 := by
  obtain ⟨a, ha, rfl⟩ := runs_bind_pure.1 h
  obtain ⟨tr', htr, hp⟩ := runs_liftLeft.1 ha
  exact ⟨tr', a, htr, hp, rfl⟩

/-- What a query gave is what the device had at a moment of the call. -/
theorem moment_of_query {a b : ShareState ι} {m : List (ShareEntry ι)}
    {tr : List (Event SysCall SysAns)} {x y : Word}
    (h : Crowd.Between (shareServe g gains) a b m) (hm : Calls i m tr)
    (hx : (e.code, x) ∈ tr.filterMap queryIn) (he : e ∈ getMap)
    (hy : y = (evalValidator (fun _ => 0) e.validate x).2) : ∃ z : ShareState ι,
      Crowd.Moment (shareServe g gains) a b z ∧ y = reading g (z.1.seenBy gains i) e := by
  obtain ⟨⟨c, ans⟩, hev, hquery⟩ := List.mem_filterMap.1 hx
  have hown : leftEvent ⟨c, ans⟩ ∈ own i m := hm ▸ List.mem_map_of_mem hev
  obtain ⟨l, l', z, rfl, hl, hl', z', u, hu, -⟩ := h.split (mem_own.1 hown)
  refine ⟨z, ⟨⟨l, hl⟩, _, hl'⟩, ?_⟩
  cases c with
  | getCfg f idx =>
    have hanswer : ans = none ∨ ans = z.1.dev.getCfg g idx := hu.1
    cases ans with
    | none => cases hquery
    | some x' =>
      obtain ⟨rfl, rfl⟩ := Prod.mk.inj (Option.some.inj hquery)
      have hvalue : some x' = (z.1.seenBy gains i).dev.getCfg g e.code :=
        hanswer.resolve_left nofun
      have hdecodes := getMap_decodes e he
      rw [hy, reading, ← hvalue]
      cases hv : e.validate with
      | setGainlimit =>
        rw [hv] at hdecodes
        cases hdecodes
      | _ => rfl
  | _ => cases hquery

/-- What is known of a call by the journal. -/
theorem shareLaw_of_journaled {a b : ShareState ι}
    {d : Done ι ShareOp (Option ParamResult) (ShareState ι)}
    (h : Crowd.Journaled shareSem (shareServe g gains) a b d) : ShareLaw g gains d := by
  obtain ⟨-, ⟨m, hm, hruns⟩, -⟩ := h
  obtain ⟨i, op, a, r, b⟩ := d
  cases op with
  | signal c => cases r <;> trivial
  | set l h p flags =>
    obtain ⟨tr, ⟨r, l'⟩, htr, hr, rfl⟩ := runs_lifted hruns
    have hnoted : Served (noting g (a.1.seenBy gains i)) tr [] ([] ++ tr.filterMap taking) :=
      served_gather.and (fits_own hm htr)
    obtain ⟨hwhole, hsent⟩ := hr.of_wlp hnoted noting_setenvparam
    refine ⟨m, hm, ?_, hwhole, settings_alone hm htr⟩
    rw [Calls.filterMap_setting htr]
    simpa using hsent
  | get l h q flags =>
    obtain ⟨tr, ⟨r, l'⟩, htr, hr, rfl⟩ := runs_lifted hruns
    have hasked : Served asking tr [] ([] ++ tr.filterMap queryIn) := served_gather
    have hgot := hr.of_wlp hasked asking_getenvparam
    intro hok e he hf
    obtain ⟨x, hx, hval⟩ := hgot hok e he hf
    exact moment_of_query hm htr hx he hval

/-- **The configuration device and its processes.** In every interleaving of the calls, a call that
sets makes the settings that it would make alone, and no one else sets anything meanwhile; a call
that reads has each parameter as the device had it at a moment of the call. -/
theorem parameters_shared {u : ShareState ι}
    {ds : List (Done ι ShareOp (Option ParamResult) (ShareState ι))}
    {t : Crowd ι ShareOp (Option ParamResult) ShareCall ShareAns (ShareState ι)}
    (h : Crowd.Run shareSem (journal (shareServe g gains)) (.rest u) ds t) :
    ∀ d ∈ ds, ShareLaw g gains d :=
  fun d hd => shareLaw_of_journaled (h.journaled.1 d hd)

/-! ## A call that reads while another one sets -/

/-- The device answers as `cfgHandler` says, and is opened if it is free. -/
def shareAnswer (i : Bool) : Handler ShareCall ShareAns (SharedCfg Bool)
  | .inl c, w => (cfgHandler brilliance c (w.seenBy (fun _ => 20) i)).map fun r =>
      (r.1, { w with dev := r.2.dev })
  | .inr (.interlock status), w => some ((), { w with dev := w.dev.ilkHandlerSpecific status })
  | .inr (.bcdOffsets x y), w => some ((), { w with dev := w.dev.bcdOffsets x y })
  | .inr (.opened f), w => some (w.master.isNone,
      if w.master.isNone then { w with master := some (i, f) } else w)
  | .inr (.closed f), w => some ((), if w.master = some (i, f) then { w with master := none } else w)

def shareHandler (i : Bool) : Handler ShareCall ShareAns (ShareState Bool) :=
  fun c w => (shareAnswer i c w.1).map fun r => (r.1, r.2, w.2 ++ [(i, ⟨c, r.1⟩)])

theorem shareHandler_serves (i : Bool) (c : ShareCall) (w : ShareState Bool)
    (r : ShareAns c × ShareState Bool) (h : shareHandler i c w = some r) :
    journal (shareServe brilliance fun _ => 20) i c r.1 w r.2 := by
  obtain ⟨⟨x, w'⟩, hx, rfl⟩ := Option.map_eq_some_iff.1 h
  refine ⟨?_, rfl⟩
  cases c with
  | inl c =>
    obtain ⟨⟨x, u⟩, hu, hx⟩ := Option.map_eq_some_iff.1 hx
    obtain ⟨rfl, rfl⟩ := Prod.mk.inj hx
    exact ⟨u, cfgHandler_serves c _ x u hu, rfl⟩
  | inr c =>
    cases c with
    | opened f =>
      obtain ⟨rfl, rfl⟩ := Prod.mk.inj (Option.some.inj hx)
      exact ⟨Option.isNone_iff_eq_none, rfl⟩
    | _ =>
      obtain ⟨rfl, rfl⟩ := Prod.mk.inj (Option.some.inj hx)
      rfl

/-- A process sets both coefficients, and another one reads them in between. -/
def tearing : List (Crowd.Slot Bool ShareOp) :=
  let file : File := ⟨3, .rdwr⟩
  let lib := Lib.loaded.setEnv fun e => { e with fd := some file, usageCount := 1 }
  let zero : EnvParams := ⟨fun _ => 0, ⟨0, 0⟩, 0⟩
  [.begin false (.set lib .env ((zero.set .kx 7).set .ky 7) (envKx ||| envKy)), .go false,
    .begin true (.get lib .env zero (envKx ||| envKy)), .go true, .go true, .go true,
    .go false, .go false, .go false]

def tearingStart : ShareState Bool :=
  (⟨CfgDevice.initSpecific brilliance fun _ => 0, some (false, ⟨3, .rdwr⟩)⟩, [])

theorem tearing_played : (Crowd.play shareSem shareHandler tearing [] (.rest tearingStart)).map
    (fun r => r.1.map fun d => d.result.map fun p => (p.1, p.2.val .kx, p.2.val .ky)) =
      some [some (cspiOk, 7, 10000000), some (cspiOk, 7, 7)] := by decide +kernel

/-- The call that reads gets a new coefficient with an old one. -/
theorem parameters_shared_torn : ∃ (ds : List (Done Bool ShareOp (Option ParamResult)
      (ShareState Bool))),
    (∀ d ∈ ds, ShareLaw brilliance (fun _ => 20) d) ∧
    ds.map (fun d => d.result.map fun p => (p.1, p.2.val .kx, p.2.val .ky)) =
      [some (cspiOk, 7, 10000000), some (cspiOk, 7, 7)] := by
  obtain ⟨⟨ds, t⟩, hplay, hout⟩ := Option.map_eq_some_iff.1 tearing_played
  exact ⟨ds, parameters_shared (Crowd.play_run shareHandler_serves .nil hplay), hout⟩

end LiberaDaq.Kernel
