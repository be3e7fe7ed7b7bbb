import LiberaDaq.Driver.History
import LiberaDaq.Kernel.CfgCall
import LiberaDaq.Kernel.Interlock

/-!
# SETENV at the configuration device

SETENV assigns its value to the members of `CSPI_ENVPARAMS` that the selector names, in a structure
that is otherwise uninitialised, and hands the structure to the library with the selector as flags.
A bit of the flags stands for a whole group, so the library may set members of the group that SETENV
has not assigned: the siblings of the one that it has.

Whether it gets to a sibling depends on the configuration, the selector and the value alone
(`Spills`). When it does not, SETENV changes the parameters that it names and no others, and what
the configuration is afterwards does not depend on the uninitialised memory; when it does, neither
holds (`setenv_exact_iff`).
-/

namespace LiberaDaq.Kernel

open LiberaDaq.Interaction LiberaDaq.Cspi Prog

variable {tf : Transform} {g : Global} {u : CfgWorld} {l : Lib} {d : Driver} {fd : Option File}
  {selector : Bitmask} {value decimation : Word} {es : List ParamMap} {e : ParamMap}

/-! ## What SETENV assigns -/

/-- SETENV assigns the member. -/
def Assigned (selector : Bitmask) (f : EnvField) : Prop :=
  ∃ a ∈ setEnvFields, a.2 = f ∧ selector.hits a.1 = true

/-- The selector names the parameter. -/
def Named (selector : Bitmask) (idx : CfgIndex) : Prop :=
  ∃ f, envField idx = some f ∧ Assigned selector f

/-- SETENV does not assign the member that the entry sets, whatever the selector. -/
def sibling (e : ParamMap) : Bool := e.field ∉ setEnvFields.map Prod.snd

/-- A structure with one value in all members. -/
def uniform (value : Word) : EnvParams := ⟨fun _ => value, ⟨0, 0⟩, 0⟩

theorem setEnv_fold {as : List (Bitmask × EnvField)} (hn : (as.map Prod.snd).Nodup)
    (env : EnvParams) :
    (∀ a ∈ as, selector.hits a.1 = true → (as.foldl (setEnv selector value) env).val a.2 = value) ∧
      ∀ f, f ∉ as.map Prod.snd → (as.foldl (setEnv selector value) env).val f = env.val f := by
  induction as generalizing env with
  | nil => exact ⟨nofun, fun _ _ => rfl⟩
  | cons a as ih =>
    obtain ⟨ha, hn⟩ := List.nodup_cons.1 hn
    obtain ⟨hin, hout⟩ := ih hn (setEnv selector value env a)
    have hne : ∀ f ≠ a.2, (setEnv selector value env a).val f = env.val f := fun f hf => by
      unfold setEnv
      split
      · exact EnvParams.set_val_of_ne _ hf _
      · rfl
    refine ⟨List.forall_mem_cons.2 ⟨fun h => ?_, hin⟩, fun f hf => ?_⟩
    · refine (hout a.2 ha).trans ?_
      rw [setEnv, if_pos h, EnvParams.set_val_self]
    · rw [List.map_cons, List.mem_cons, not_or] at hf
      exact (hout f hf.2).trans (hne f hf.1)

theorem setEnvFields_nodup : (setEnvFields.map Prod.snd).Nodup := by decide

/-! ## The tables -/

/-- The entry sets the member that its parameter is, and SETENV assigns that member for the bit of
the entry, if it does at all. -/
def headed (e : ParamMap) : Bool :=
  envField e.code = some e.field && (sibling e || (e.mask, e.field) ∈ setEnvFields)

theorem customSetMap_headed (decimation : Word) : (customSetMap decimation).all headed = true := rfl

theorem coeffMap_headed : ∀ e ∈ coeffMap, headed e = true := by
  intro e he
  simp only [coeffMap, List.mem_append, List.mem_map] at he
  obtain ⟨i, -, rfl⟩ | ⟨i, -, rfl⟩ | ⟨i, -, rfl⟩ := he
  · by_cases hi : i = 0
    · subst hi
      rfl
    · simp [headed, envField, sibling, setEnvFields, hi]
  · by_cases hi : i = 0
    · subst hi
      rfl
    · simp [headed, envField, sibling, setEnvFields, hi]
  · by_cases hi : i = 0
    · subst hi
      rfl
    · simp [headed, envField, sibling, setEnvFields, hi]

theorem setMap_headed (he : e ∈ setMap decimation) : headed e = true := by
  rw [setMap, List.mem_append, List.mem_append] at he
  rcases he with he | he | he
  · obtain rfl := List.mem_singleton.1 he
    rfl
  · exact List.all_eq_true.1 (customSetMap_headed decimation) e he
  · exact coeffMap_headed e he

theorem envField_of_mem (he : e ∈ setMap decimation) : envField e.code = some e.field := by
  have h := setMap_headed he
  rw [headed, Bool.and_eq_true] at h
  exact of_decide_eq_true h.1

theorem mem_setEnvFields (he : e ∈ setMap decimation) (hs : sibling e = false) :
    (e.mask, e.field) ∈ setEnvFields := by
  have h := setMap_headed he
  rw [headed, Bool.and_eq_true, hs, Bool.false_or] at h
  exact of_decide_eq_true h.2

/-- An entry that is no sibling sets a parameter that the selector names. -/
theorem named_of_mem (he : e ∈ setMap decimation) (hs : sibling e = false)
    (hf : selector.hits e.mask = true) : Named selector e.code :=
  ⟨e.field, envField_of_mem he, _, mem_setEnvFields he hs, rfl, hf⟩

/-- A sibling does not. -/
theorem not_named_of_mem (he : e ∈ setMap decimation) (hs : sibling e = true) :
    ¬Named selector e.code := by
  rintro ⟨f, hf, a, ha, rfl, -⟩
  rw [envField_of_mem he, Option.some.injEq] at hf
  rw [sibling, decide_eq_true_eq, hf] at hs
  exact hs (List.mem_map_of_mem ha)

/-- SETENV hands its value over in the members that the entry of a bit names. -/
theorem setEnvParams_head (he : e ∈ setMap decimation) (hs : sibling e = false)
    (hf : selector.hits e.mask = true) (env : EnvParams) :
    (setEnvParams selector value env).val e.field = value :=
  (setEnv_fold setEnvFields_nodup env).1 _ (mem_setEnvFields he hs) hf

/-- The members of the siblings are as they were in memory. -/
theorem setEnvParams_sibling (hs : sibling e = true) (env : EnvParams) :
    (setEnvParams selector value env).val e.field = env.val e.field :=
  (setEnv_fold setEnvFields_nodup env).2 _ (of_decide_eq_true hs)

/-! ## Whether a call gets to a sibling -/

/-- The walk through a table gets to a sibling: all selected entries before it are taken with the
value of SETENV. -/
def spills (g : Global) (u : CfgWorld) (fd : Option File) (selector : Bitmask) (value : Word) :
    List ParamMap → Bool
  | [] => false
  | e :: es =>
    if selector.hits e.mask then
      sibling e || (taken g u fd (uniform value) e && spills g u fd selector value es)
    else spills g u fd selector value es

/-- SETENV has the library set a parameter that it has not assigned: the driver has a handle, the
environment is not locked, the device takes settings from its file, health and feature parameters
are not selected, and the walk gets to a sibling. -/
def Spills (g : Global) (d : Driver) (l : Lib) (u : CfgWorld) (selector : Bitmask) (value : Word) :
    Prop :=
  d.envHandle = .env ∧ l.env.mutex = false ∧ l.env.fd.any (u.master = some ·) = true ∧
    (selector.hits envHealth || selector.hits envFeature) = false ∧
    spills g u l.env.fd selector value (setMap l.decimation) = true

/-- The first sibling that a walk gets to. -/
theorem exists_of_spills (h : spills g u fd selector value es = true) :
    ∃ pre e post, es = pre ++ e :: post ∧ selector.hits e.mask = true ∧ sibling e = true ∧
      ∀ e' ∈ pre, selector.hits e'.mask = true →
        sibling e' = false ∧ taken g u fd (uniform value) e' = true := by
  induction es with
  | nil => cases h
  | cons e es ih =>
    rw [spills] at h
    cases hf : selector.hits e.mask with
    | false =>
      simp only [hf, Bool.false_eq_true, if_false] at h
      obtain ⟨pre, e', post, rfl, he', hs, hpre⟩ := ih h
      refine ⟨e :: pre, e', post, rfl, he', hs, List.forall_mem_cons.2 ⟨fun h => ?_, hpre⟩⟩
      rw [hf] at h
      cases h
    | true =>
      simp only [hf, if_true] at h
      cases hs : sibling e with
      | true => exact ⟨[], e, es, rfl, hf, hs, by simp⟩
      | false =>
        rw [hs, Bool.false_or, Bool.and_eq_true] at h
        obtain ⟨pre, e', post, rfl, he', hs', hpre⟩ := ih h.2
        exact ⟨e :: pre, e', post, rfl, he', hs', List.forall_mem_cons.2 ⟨fun _ => ⟨hs, h.1⟩, hpre⟩⟩

/-- A walk that gets to no sibling makes settings of named parameters, whatever is in memory. -/
theorem sentParams_of_not_spills (hes : es ⊆ setMap decimation)
    (h : spills g u fd selector value es = false) (env : EnvParams) :
    sentParams g u fd (setEnvParams selector value env) selector es =
        sentParams g u fd (uniform value) selector es ∧
      ∀ op ∈ sentParams g u fd (uniform value) selector es, Named selector op.1 := by
  induction es with
  | nil => exact ⟨rfl, nofun⟩
  | cons e es ih =>
    obtain ⟨he, hes⟩ := List.cons_subset.1 hes
    rw [spills] at h
    rw [sentParams_cons, sentParams_cons]
    cases hf : selector.hits e.mask with
    | false =>
      simp only [hf, Bool.false_eq_true, if_false] at h ⊢
      exact ih hes h
    | true =>
      simp only [hf, if_true, Bool.or_eq_false_iff] at h ⊢
      have hval : (setEnvParams selector value env).val e.field = (uniform value).val e.field :=
        setEnvParams_head he h.1 hf env
      rw [taken_congr hval, settingOf_congr hval]
      cases ht : taken g u fd (uniform value) e with
      | false => simp
      | true =>
        rw [ht, Bool.true_and] at h
        obtain ⟨hsent, hnamed⟩ := ih hes h.2
        simp only [if_true, hsent]
        exact ⟨trivial, List.forall_mem_cons.2 ⟨named_of_mem he h.1 hf, hnamed⟩⟩

/-! ## The first sibling -/

/-- The first siblings in the groups. -/
def seconds : List ParamMap :=
  [paramIlk .xlow (.check ebppIsValidInt25), paramPm .minXLimit (.check ebppIsValidInt25),
    paramSr .cspiEnable (.check ebppIsValidBool), paramSp .nBefore (.check ebppIsValidSpint),
    ⟨envNotch1, .notch1 1, .notch1 1, .none⟩, ⟨envNotch2, .notch2 1, .notch2 1, .none⟩,
    ⟨envPolyphaseFir, .polyphaseFir 1, .polyphaseFir 1, .none⟩]

/-- The entry is a sibling that the flags select. -/
def hitsSibling (selector : Bitmask) (e : ParamMap) : Bool := selector.hits e.mask && sibling e

/-- Among entries for one bit, of which the second is a sibling and the first is not, the first
sibling is the second entry. -/
theorem find?_family {n : ℕ} (k : Fin (n + 2) → ParamMap) {m : Bitmask} (hm : ∀ i, (k i).mask = m)
    (h₀ : sibling (k 0) = false) (h₁ : sibling (k 1) = true)
    (h : ((List.finRange (n + 2)).map k).find? (hitsSibling selector) = some e) : e = k 1 := by
  have hmem := List.mem_of_find?_eq_some h
  have hhit := List.find?_some h
  obtain ⟨i, -, rfl⟩ := List.mem_map.1 hmem
  rw [hitsSibling, Bool.and_eq_true, hm] at hhit
  rw [List.finRange_succ, List.finRange_succ, List.map_cons, List.map_cons, List.map_cons,
    List.find?_cons_of_neg (by simp [hitsSibling, h₀]),
    List.find?_cons_of_pos (by simp [hitsSibling, hm, hhit.1, h₁])] at h
  exact (Option.some.inj h).symm

theorem find?_customSetMap
    (h : (customSetMap decimation).find? (hitsSibling selector) = some e) : e ∈ seconds := by
  have hsiblings : (customSetMap decimation).filter sibling =
      [paramIlk .xlow (.check ebppIsValidInt25), paramIlk .xhigh (.check ebppIsValidInt25),
        paramIlk .ylow (.check ebppIsValidInt25), paramIlk .yhigh (.check ebppIsValidInt25),
        paramIlk .overflowDur (.check ebppIsValidoverflowdur),
        paramIlk .overflowLimit (.check ebppIsValidOverflowlimit),
        paramIlk .gainLimit .setGainlimit,
        paramPm .minXLimit (.check ebppIsValidInt25), paramPm .maxXLimit (.check ebppIsValidInt25),
        paramPm .minYLimit (.check ebppIsValidInt25), paramPm .maxYLimit (.check ebppIsValidInt25),
        paramPm .overflowLimit (.check ebppIsValidOverflowlimit),
        paramPm .overflowDur (.check ebppIsValidoverflowdur),
        paramSr .cspiEnable (.check ebppIsValidBool),
        paramSr .averagingStop (.check ebppIsValidInt5),
        paramSr .averageWindow (.check ebppIsValidAveragewindow),
        paramSr .start (.check ebppIsValidInt5), paramSr .window (.check ebppIsValidUint7),
        paramSp .nBefore (.check ebppIsValidSpint), paramSp .nAfter (.check ebppIsValidSpint)] :=
          rfl
  have h : ((customSetMap decimation).filter sibling).find? (fun e => selector.hits e.mask) =
      some e := by
    rw [List.find?_filter, ← h]
    refine congrArg (List.find? · _) (funext fun e => ?_)
    simp [hitsSibling, Bool.and_comm]
  rw [hsiblings] at h
  simp only [paramIlk, paramPm, paramSr, paramSp, List.find?_cons] at h
  cases hilk : selector.hits envIlk with
  | true =>
    obtain rfl : _ = e := by simpa only [hilk, Option.some.injEq] using h
    simp [seconds, paramIlk]
  | false =>
    cases hpm : selector.hits envPm with
    | true =>
      obtain rfl : _ = e := by simpa only [hilk, hpm, Option.some.injEq] using h
      simp [seconds, paramPm]
    | false =>
      cases hsr : selector.hits envSr with
      | true =>
        obtain rfl : _ = e := by simpa only [hilk, hpm, hsr, Option.some.injEq] using h
        simp [seconds, paramSr]
      | false =>
        cases hsp : selector.hits envSp with
        | true =>
          obtain rfl : _ = e := by simpa only [hilk, hpm, hsr, hsp, Option.some.injEq] using h
          simp [seconds, paramSp]
        | false => simp [hilk, hpm, hsr, hsp] at h

theorem find?_coeffMap (h : coeffMap.find? (hitsSibling selector) = some e) : e ∈ seconds := by
  rw [coeffMap, List.find?_append, List.find?_append, Option.or_eq_some_iff,
    Option.or_eq_some_iff] at h
  rcases h with h | ⟨-, h | ⟨-, h⟩⟩
  · rw [find?_family (fun i : Fin 5 => ⟨envNotch1, .notch1 i, .notch1 i, .none⟩) (fun _ => rfl) rfl
      rfl h]
    simp [seconds]
  · rw [find?_family (fun i : Fin 5 => ⟨envNotch2, .notch2 i, .notch2 i, .none⟩) (fun _ => rfl) rfl
      rfl h]
    simp [seconds]
  · rw [find?_family (fun i : Fin 192 => ⟨envPolyphaseFir, .polyphaseFir i, .polyphaseFir i, .none⟩)
      (fun _ => rfl) rfl rfl h]
    simp [seconds]

/-- The first sibling that a walk through the tables gets to is the first of its group. -/
theorem mem_seconds {pre post : List ParamMap} (hes : setMap decimation = pre ++ e :: post)
    (hf : selector.hits e.mask = true) (hs : sibling e = true)
    (hpre : ∀ e' ∈ pre, selector.hits e'.mask = true → sibling e' = false) : e ∈ seconds := by
  have hfind : (setMap decimation).find? (hitsSibling selector) = some e := by
    rw [List.find?_eq_some_iff_append]
    refine ⟨by simp [hitsSibling, hf, hs], pre, post, hes, fun e' he' => ?_⟩
    cases hf' : selector.hits e'.mask with
    | false => simp [hitsSibling, hf']
    | true => simp [hitsSibling, hpre e' he' hf']
  rw [setMap, List.find?_append, List.find?_append, Option.or_eq_some_iff,
    Option.or_eq_some_iff] at hfind
  rcases hfind with h | ⟨-, h | ⟨-, h⟩⟩
  · have hhit := List.find?_some h
    obtain rfl := List.mem_singleton.1 (List.mem_of_find?_eq_some h)
    rw [hitsSibling, Bool.and_eq_true] at hhit
    exact absurd hhit.2 (by decide)
  · exact find?_customSetMap h
  · exact find?_coeffMap h

/-- Both sides take `0` and `1` for the first sibling of a group, and keep them as they are. -/
theorem second_taken {w : Word} (he : e ∈ seconds) (hw : w = 0 ∨ w = 1) :
    evalValidator u.gains e.validate w = (true, w) ∧ accepts g e.code w = true ∧
      ∀ d d', CfgDevice.setCfg g d e.code w = some d' → d'.value e.code = w := by
  have hparam : ∀ (d : CfgDevice) idx, (d.mirror idx w).param idx = w := fun _ _ =>
    Function.update_self _ _ _
  simp only [seconds, List.mem_cons, List.not_mem_nil, or_false] at he
  obtain rfl | rfl | rfl | rfl | rfl | rfl | rfl := he
  · refine ⟨?_, rfl, fun d d' h => Option.some.inj h ▸ hparam _ _⟩
    obtain rfl | rfl := hw <;> rfl
  · refine ⟨?_, rfl, fun d d' h => Option.some.inj h ▸ hparam _ _⟩
    obtain rfl | rfl := hw <;> rfl
  · refine ⟨?_, rfl, fun d d' h => Option.some.inj h ▸ hparam _ _⟩
    obtain rfl | rfl := hw <;> rfl
  · refine ⟨?_, rfl, fun d d' h => Option.some.inj h ▸ hparam _ _⟩
    obtain rfl | rfl := hw <;> rfl
  · exact ⟨rfl, rfl, fun d d' h => Option.some.inj h ▸ hparam _ _⟩
  · exact ⟨rfl, rfl, fun d d' h => Option.some.inj h ▸ hparam _ _⟩
  · refine ⟨rfl, rfl, fun d d' h => ?_⟩
    simp only [CfgDevice.setCfg, CfgDevice.setSpecific, CfgDevice.setCoeff] at h
    split at h
    · rw [← Option.some.inj h]
      change ((d.mirror _ w).writeCoeffs _ _).param _ = w
      rw [param_writeCoeffs]
      exact hparam _ _
    · exact Option.some.inj h ▸ hparam _ _

/-! ## Runs -/

/-- SETENV has run on top of the library and left the world `u'`. -/
def SetenvRun (tf : Transform) (g : Global) (d : Driver) (l : Lib) (u : CfgWorld)
    (selector : Bitmask) (value : Word) (u' : CfgWorld) : Prop :=
  ∃ tr r, ((d.iop (.setenv selector value)).interp (Prog.beside (cspiImpl tf)) l).Runs tr r ∧
    Served (servesLeft (quietServe g)) tr u u'

/-- The settings of SETENV. -/
def setenvSettings (g : Global) (d : Driver) (l : Lib) (u : CfgWorld) (selector : Bitmask)
    (value : Word) (env : EnvParams) : List (CfgIndex × Word) :=
  if d.envHandle = .env then
    callSettings g u l.env.fd l.decimation (setEnvParams selector value env) selector
  else []

/-- SETENV on top of the library: two structures, of which the call gets the second, and the
call. -/
theorem interp_setenv : ∃ f : ParamResult × Lib → (Outcome × IopOut × Driver) × Lib,
    (d.iop (.setenv selector value)).interp (Prog.beside (cspiImpl tf)) l =
      .call (.inr .uninitEnv) fun _ => .call (.inr .uninitEnv) fun env =>
        (l.setenvparam d.envHandle (setEnvParams selector value env) selector).liftLeft >>=
          fun r => Pure.pure (f r) := by
  refine ⟨fun r => if r.1.1 ≠ cspiOk then ((.ret r.1.1, .none, d.setOperation .setenv), r.2)
    else ((.ret 0, .none, d.setOperation .setenv), r.2), ?_⟩
  refine congrArg (Prog.call _) (funext fun ep => congrArg (Prog.call _) (funext fun env => ?_))
  refine congrArg (Bind.bind _) (funext fun r => ?_)
  obtain ⟨⟨rc, p⟩, l'⟩ := r
  change Prog.interp _ (if rc ≠ cspiOk then _ else _) l' = _
  dsimp only
  split <;> rfl

/-- What SETENV leaves, for some contents of the uninitialised structure. -/
theorem SetenvRun.eq {u' : CfgWorld} (h : SetenvRun tf g d l u selector value u') :
    ∃ env, u' = u.setAll g (setenvSettings g d l u selector value env) := by
  obtain ⟨tr, r, hr, hs⟩ := h
  obtain ⟨f, hf⟩ : ∃ f : ParamResult × Lib → (Outcome × IopOut × Driver) × Lib, _ = _ :=
    interp_setenv (l := l) (d := d)
  rw [hf] at hr
  refine hr.of_wlp (Q := fun _ u' =>
    ∃ env, u' = u.setAll g (setenvSettings g d l u selector value env)) hs ?_
  rintro ep _ rfl env _ rfl
  refine wlp_bind.2 (wlp_liftLeft.2 (wlp_mono wlp_setenvparam fun r u' hu' => ⟨env, ?_⟩))
  exact hu'

/-- The calls that return. -/
def Returns (c : SysCall) : Prop := (granting c 0).isSome

theorem quietServe_returns (c : SysCall) (v : CfgWorld) (hc : Returns c) :
    ∃ x v', quietServe g c x v v' := by
  obtain ⟨⟨x, v'⟩, hx⟩ : ∃ r, cfgHandler g c v = some r := by
    cases c with
    | setCfg f idx val =>
      simp only [cfgHandler]
      split <;> exact ⟨_, rfl⟩
    | hang | fault => cases hc
    | _ => exact ⟨_, rfl⟩
  refine ⟨x, v', cfgHandler_serves c v x v' hx, ?_⟩
  rintro m w rfl
  exact (Prod.mk.inj (Option.some.inj hx)).2.symm

/-- SETENV may find any contents in the uninitialised structure. -/
theorem exists_setenvRun (hm : l.env.mutex = false) (henv : d.envHandle = .env) (env : EnvParams) :
    SetenvRun tf g d l u selector value
      (u.setAll g (setenvSettings g d l u selector value env)) := by
  have honly : Only Returns
      (l.setenvparam d.envHandle (setEnvParams selector value env) selector) := by
    rw [henv]
    exact only_setenvparam hm (fun _ => rfl) (fun _ _ _ => rfl) (fun _ _ => rfl) (fun _ => rfl)
      (fun _ _ => rfl) fun _ => rfl
  obtain ⟨tr, r, u', hr, hs⟩ := exists_served honly (quietServe_returns (g := g)) u
  have hu' : u' = u.setAll g (setenvSettings g d l u selector value env) :=
    hr.of_wlp hs wlp_setenvparam
  obtain ⟨f, hf⟩ : ∃ f : ParamResult × Lib → (Outcome × IopOut × Driver) × Lib, _ = _ :=
    interp_setenv (l := l) (d := d)
  refine ⟨⟨.inr .uninitEnv, env⟩ :: ⟨.inr .uninitEnv, env⟩ :: tr.map leftEvent, f r, ?_, ?_⟩
  · rw [hf]
    exact ⟨env, _, rfl, env, _, rfl, runs_bind_pure.2 ⟨r, runs_liftLeft.2 ⟨tr, rfl, hr⟩, rfl⟩⟩
  · exact ⟨u, rfl, u, rfl, hu' ▸ served_leftEvent.2 hs⟩

/-- While the environment is locked, SETENV does not return. -/
theorem not_setenvRun {u' : CfgWorld} (hm : l.env.mutex = true) (henv : d.envHandle = .env) :
    ¬SetenvRun tf g d l u selector value u' := by
  rintro ⟨tr, r, hr, hs⟩
  obtain ⟨f, hf⟩ : ∃ f : ParamResult × Lib → (Outcome × IopOut × Driver) × Lib, _ = _ :=
    interp_setenv (l := l) (d := d)
  rw [hf, henv] at hr
  refine hr.of_wlp (Q := fun _ _ => False) hs ?_
  rintro ep _ rfl env _ rfl
  refine wlp_bind.2 (wlp_liftLeft.2 (wlp_bind.2 ?_))
  rw [Lib.isHenv, wlp_pure, if_pos rfl]
  refine wlp_bind.2 (wlp_lock.2 fun h => ?_)
  rw [hm] at h
  cases h

/-! ## Spilling -/

/-- No setting reaches the device from another file than its master. -/
theorem sentParams_of_not_master {p : EnvParams} (h : fd.any (u.master = some ·) = false) :
    sentParams g u fd p selector es = [] := by
  have htaken : ∀ e, taken g u fd p e = false := fun e => by simp [taken, h]
  induction es with
  | nil => rfl
  | cons e es ih =>
    rw [sentParams_cons, htaken, ih]
    simp

/-- A call that does not spill makes settings of named parameters, whatever is in memory. -/
theorem setenvSettings_of_not_spills (hm : l.env.mutex = false)
    (h : ¬Spills g d l u selector value) (env env' : EnvParams) :
    setenvSettings g d l u selector value env = setenvSettings g d l u selector value env' ∧
      ∀ op ∈ setenvSettings g d l u selector value env, Named selector op.1 := by
  unfold setenvSettings
  by_cases henv : d.envHandle = .env
  · rw [if_pos henv, if_pos henv]
    cases hmaster : l.env.fd.any (u.master = some ·) with
    | false =>
      simp only [callSettings, sentParams_of_not_master hmaster]
      exact ⟨trivial, by simp⟩
    | true =>
      have hwalk : ∀ es ⊆ setMap l.decimation, spills g u l.env.fd selector value es = false →
          sentParams g u l.env.fd (setEnvParams selector value env) selector es =
            sentParams g u l.env.fd (setEnvParams selector value env') selector es ∧
          ∀ op ∈ sentParams g u l.env.fd (setEnvParams selector value env) selector es,
            Named selector op.1 := by
        intro es hes hno
        obtain ⟨hsent, hnamed⟩ := sentParams_of_not_spills hes hno env
        rw [hsent, (sentParams_of_not_spills hes hno env').1]
        exact ⟨rfl, hnamed⟩
      cases hstop : selector.hits envHealth || selector.hits envFeature with
      | true =>
        simp only [callSettings, hstop, if_true]
        refine hwalk _ (List.subset_append_left _ _) ?_
        have hsibling : sibling ⟨envTrigmode, .trigmode, .trigMode, .check isValidtrigmode⟩ =
            false := rfl
        simp [baseSetMap, spills, hsibling]
      | false =>
        simp only [callSettings, hstop, Bool.false_eq_true, if_false]
        refine hwalk _ (List.Subset.refl _) (Bool.eq_false_iff.2 fun hspills => h ?_)
        exact ⟨henv, hm, hmaster, hstop, hspills⟩
  · rw [if_neg henv, if_neg henv]
    exact ⟨rfl, by simp⟩

/-- A call that spills leaves in a parameter that the selector does not name whatever memory had. -/
theorem exists_spilled (tf : Transform) (h : Spills g d l u selector value) :
    ∃ u' idx, SetenvRun tf g d l u selector value u' ∧ ¬Named selector idx ∧
      u'.dev.value idx ≠ u.dev.value idx := by
  obtain ⟨henv, hm, hmaster, hstop, hspills⟩ := h
  obtain ⟨pre, e, post, hes, hf, hs, hpre⟩ := exists_of_spills hspills
  have he : e ∈ setMap l.decimation := hes ▸ List.mem_append_right _ List.mem_cons_self
  have hsecond := mem_seconds hes hf hs fun e' he' hf' => (hpre e' he' hf').1
  obtain ⟨w, hw, hne⟩ : ∃ w : Word, (w = 0 ∨ w = 1) ∧ w ≠ u.dev.value e.code := by
    by_cases h0 : u.dev.value e.code = 0
    · exact ⟨1, .inr rfl, by rw [h0]; decide⟩
    · exact ⟨0, .inl rfl, Ne.symm h0⟩
  obtain ⟨hvalid, haccepts, hvalue⟩ := second_taken (g := g) (u := u) hsecond hw
  let p : EnvParams := setEnvParams selector value (uniform w)
  have hval : p.val e.field = w := setEnvParams_sibling hs _
  -- The entries before the sibling are taken, and so is the sibling.
  have hallTaken : allTaken g u l.env.fd p selector pre := by
    intro e' he' hf'
    obtain ⟨hs', ht⟩ := hpre e' he' hf'
    have hmem : e' ∈ setMap l.decimation := hes ▸ List.mem_append_left _ he'
    have hval' : p.val e'.field = (uniform value).val e'.field := setEnvParams_head hmem hs' hf' _
    rw [taken_congr hval', ht]
  have hsetting : settingOf u p e = (e.code, w) := by
    rw [settingOf, hval, hvalid]
  have htaken : taken g u l.env.fd p e = true := by
    rw [taken, hsetting, hval, hvalid, hmaster, haccepts]
    rfl
  have hsettings : setenvSettings g d l u selector value (uniform w) =
      sentParams g u l.env.fd p selector pre ++
        ((e.code, w) :: sentParams g u l.env.fd p selector post) := by
    rw [setenvSettings, if_pos henv, callSettings, hstop]
    simp only [Bool.false_eq_true, if_false]
    rw [hes, sentParams_append, if_pos hallTaken, sentParams_cons, if_pos hf, if_pos htaken,
      hsetting]
  -- The sibling keeps its value in the rest of the walk.
  have hlater : e.code ∉ (sentParams g u l.env.fd p selector post).map Prod.fst := by
    intro hmem
    have hcodes := setMap_codes l.decimation
    rw [hes, List.map_append, List.map_cons] at hcodes
    exact (List.nodup_cons.1 hcodes.of_append_right).1 (sentParams_sublist.subset hmem)
  have hafter : (u.setAll g (setenvSettings g d l u selector value (uniform w))).dev.value e.code =
      w := by
    rw [hsettings, setAll_append]
    refine (value_setAll_of_not_mem hlater).trans ?_
    have hset : ∀ d : CfgDevice, ((d.setCfg g e.code w).getD d).value e.code = w := fun d => by
      obtain ⟨d', hd'⟩ := Option.isSome_iff_exists.1 ((setCfg_isSome (d := d)).trans haccepts)
      rw [hd']
      exact hvalue _ _ hd'
    exact hset _
  exact ⟨_, e.code, exists_setenvRun hm henv _, not_named_of_mem he hs, by rwa [hafter]⟩

/-- SETENV sets what the selector names: what it makes of the device is the same in every run, and
the parameters that the selector does not name are as before. -/
structure SetsExactly (tf : Transform) (g : Global) (d : Driver) (l : Lib) (u : CfgWorld)
    (selector : Bitmask) (value : Word) : Prop where
  same : ∀ u₁ u₂, SetenvRun tf g d l u selector value u₁ → SetenvRun tf g d l u selector value u₂ →
    u₁.dev = u₂.dev
  kept : ∀ u', SetenvRun tf g d l u selector value u' → ∀ idx, ¬Named selector idx →
    u'.dev.value idx = u.dev.value idx

/-- **SETENV sets exactly what it addresses if and only if it does not spill** over to the siblings
in a group. -/
theorem setenv_exact_iff (tf : Transform) (g : Global) (d : Driver) (l : Lib) (u : CfgWorld)
    (selector : Bitmask) (value : Word) :
    SetsExactly tf g d l u selector value ↔ ¬Spills g d l u selector value := by
  constructor
  · intro h hspills
    obtain ⟨u', idx, hrun, hnamed, hne⟩ := exists_spilled tf hspills
    exact hne (h.kept u' hrun idx hnamed)
  · intro h
    by_cases hno : l.env.mutex = true ∧ d.envHandle = .env
    · have hnone : ∀ u', ¬SetenvRun tf g d l u selector value u' := fun u' =>
        not_setenvRun hno.1 hno.2
      exact ⟨fun u₁ _ h₁ => absurd h₁ (hnone u₁), fun u' h' => absurd h' (hnone u')⟩
    · have hset : ∀ env env', setenvSettings g d l u selector value env =
            setenvSettings g d l u selector value env' ∧
          ∀ op ∈ setenvSettings g d l u selector value env, Named selector op.1 := by
        intro env env'
        by_cases henv : d.envHandle = .env
        · exact setenvSettings_of_not_spills (by simpa [henv] using hno) h env env'
        · simp [setenvSettings, henv]
      constructor
      · intro u₁ u₂ h₁ h₂
        obtain ⟨env₁, rfl⟩ := h₁.eq
        obtain ⟨env₂, rfl⟩ := h₂.eq
        rw [(hset env₁ env₂).1]
      · intro u' h' idx hidx
        obtain ⟨env, rfl⟩ := h'.eq
        refine value_setAll_of_not_mem fun hmem => ?_
        obtain ⟨op, hop, rfl⟩ := List.mem_map.1 hmem
        exact hidx ((hset env env).2 op hop)

/-- SETENV of the interlock mode leaves in the limits whatever memory had. -/
theorem setenv_not_exact : ¬∀ (tf : Transform) (g : Global) (d : Driver) (l : Lib) (u : CfgWorld)
    (selector : Bitmask) (value : Word), SetsExactly tf g d l u selector value := by
  intro h
  have hspills : Spills brilliance calmDriver (ilkCall fun _ => 0).lib cfgStart envIlk 1 :=
    ⟨rfl, rfl, rfl, by decide, rfl⟩
  obtain ⟨u', idx, hrun, hnamed, hne⟩ := exists_spilled (fun _ _ _ _ => none) hspills
  exact hne ((h _ _ _ _ _ _ _).kept u' hrun idx hnamed)

end LiberaDaq.Kernel
