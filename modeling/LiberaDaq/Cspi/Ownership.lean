import LiberaDaq.Cspi.Allocation
import LiberaDaq.Cspi.Locks

/-!
# Taking and giving back handles

What the calls that manage handles make of the books of the library, one lemma for each: an
allocation of the environment (`EnvTaken`) and of a connection (`allochandle_con_taken`), and the
release of either (`EnvGivenBack`, `freehandle_con_given`). The last part is about an allocation
under calls that succeed (`granted`).
-/

namespace LiberaDaq.Cspi

open LiberaDaq.Interaction LiberaDaq.Memory Prog

variable {l l' : Lib} {ps : List ℕ} {p : ℕ} {c : Connection} {h : Handle}

/-! ## The environment -/

/-- What an allocation of the environment leaves, while its mutex is free. -/
structure EnvTaken (l : Lib) (r : (ℤ × Handle) × Lib) : Prop where
  mutex : r.2.env.mutex = false
  list : l.SameList r.2
  ok : r.1.1 = cspiOk →
    r.1.2 = .env ∧ r.2.env.usageCount = l.env.usageCount + 1 ∧ r.2.env.fd.isSome
  failed : r.1.1 ≠ cspiOk → r.1.2 = .null ∧ r.2.env.usageCount = l.env.usageCount
  fd : l.env.usageCount ≠ 0 → r.2.env.fd = l.env.fd
  first : l.env.usageCount = 0 → r.1.1 = cspiOk → ∃ n, r.2.env.fd = some ⟨n, l.env.access⟩

/-- The first user opened the configuration device. -/
theorem Initiated.opened {rc : ℤ} {tr : List SysEvent} (hi : Initiated l (rc, l') tr) (hrc : rc = 0)
    (hu : l.env.usageCount = 1) : ∃ n, l'.env.fd = some ⟨n, l.env.access⟩ := by
  cases hi with
  | stopped h hne => exact absurd hrc hne
  | failed => cases hrc
  | ready h hf =>
    cases h with
    | first hu hc => exact ⟨_, rfl⟩
    | later hne => exact absurd hu hne

theorem allochandle_env_taken (hm : l.env.mutex = false) :
    (l.allochandle .env h).Ensures (EnvTaken l) := by
  refine ensures_of_runs fun tr r hr => ?_
  rw [allochandle_env_eq hm] at hr
  obtain ⟨tr, rest, ⟨rc, l₁⟩, rfl, hrun, hend⟩ := runs_bind.1 hr
  have hfree : Served (allowing fun _ _ => True) tr () () := served_allowing fun _ _ => trivial
  have hinit := hrun.of_wlp (hfree.record []) customInitenv_initiated
  have hi : Initiation _ rc l₁ tr := Initiated.initiation hinit
  have husage : l₁.env.usageCount = l.env.usageCount + 1 := hi.usage
  have hlist : l.SameList l₁ := ⟨hi.list.head, hi.list.links, hi.list.count⟩
  have hfd : l.env.usageCount ≠ 0 → l₁.env.fd = l.env.fd := fun hu =>
    hi.later fun h1 : l.env.usageCount + 1 = 1 => hu (by bv_omega)
  dsimp only at hend
  split at hend
  · next hrc =>
    obtain ⟨-, rfl⟩ := hend
    refine ⟨rfl, ⟨hlist.head, hlist.links, hlist.count⟩, fun h => absurd h hrc, fun _ => ⟨rfl, ?_⟩,
      hfd, fun _ h => absurd h hrc⟩
    change l₁.env.usageCount - 1 = _
    rw [husage]
    exact BitVec.add_sub_cancel _ _
  · next hrc =>
    obtain ⟨-, rfl⟩ := hend
    refine ⟨rfl, ⟨hlist.head, hlist.links, hlist.count⟩,
      fun h => ⟨rfl, husage, (hi.ok.1 h).1⟩, fun h => absurd (not_not.1 hrc) h, hfd, fun hu h => ?_⟩
    have hi : Initiated _ (rc, l₁) tr := hinit
    exact hi.opened h (show l.env.usageCount + 1 = 1 by rw [hu]; rfl)

/-- What a release of the environment that goes through leaves, with the users that are then
counted. -/
structure EnvGivenBack (l : Lib) (users : Word) (r : ℤ × Lib) : Prop where
  ok : r.1 = cspiOk
  mutex : r.2.env.mutex = false
  heap : r.2.heap = l.heap
  head : r.2.env.head = l.env.head
  count : r.2.env.connectionCount = l.env.connectionCount
  usage : r.2.env.usageCount = users
  fd : l.env.usageCount ≠ 1 → r.2.env.fd = l.env.fd

/-- What `destroy_env` leaves. -/
theorem destroyEnv_given : l.destroyEnv.Ensures fun r =>
    (l.InUse → r.1 ≠ cspiOk ∧ r.2.env.mutex = true) ∧
      (¬l.InUse → EnvGivenBack l l.env.usageCount r) := by
  refine confined_bind.2 (ensures_lock.2 fun _ => ?_)
  split
  · next hu =>
    split
    · next hc => exact ⟨fun _ => ⟨cspiESequence_ne, rfl⟩, fun hno => absurd ⟨hu, hc⟩ hno⟩
    · next hc =>
      refine ensures_bind fun _ => ensures_bind fun _ => ⟨fun huse => absurd huse.2 hc, fun _ => ?_⟩
      exact ⟨rfl, rfl, rfl, rfl, rfl, rfl, fun hne => absurd hu hne⟩
  · next hu =>
    exact ⟨fun huse => absurd huse.1 hu, fun _ => ⟨rfl, rfl, rfl, rfl, rfl, rfl, fun _ => rfl⟩⟩

/-- A release of the environment. When the environment is in use, it fails and leaves the mutex
locked. -/
theorem freehandle_env_given : (l.freehandle .env .env).Ensures fun r =>
    (l.InUse → r.1 ≠ cspiOk ∧ r.2.env.mutex = true) ∧
      (¬l.InUse → EnvGivenBack l (l.env.usageCount - 1) r) := by
  simp only [Lib.freehandle, reduceCtorEq, if_false, Lib.isHenv, pure_bind, if_true]
  refine confined_bind.2 (confined_mono destroyEnv_given ?_)
  rintro ⟨rc, l₁⟩ ⟨huse, hfree⟩
  dsimp only
  split
  · next hrc =>
    have hnot : ¬l.InUse := fun hu => (huse hu).1 hrc
    have hl := hfree hnot
    rw [freeEnv_eq hl.mutex]
    refine ⟨fun hu => absurd hu hnot, fun _ => ⟨hrc, rfl, hl.heap, hl.head, hl.count, ?_, hl.fd⟩⟩
    change l₁.env.usageCount - 1 = _
    rw [hl.usage]
  · next hrc => exact ⟨huse, fun hu => absurd (hfree hu).ok hrc⟩

/-! ## Connections -/

/-- An allocation of a connection, while the environment's mutex is free. -/
theorem allochandle_con_taken (hl : l.Listed ps) (hm : l.env.mutex = false) :
    (l.allochandle .con .env).wlp (allowing mallocFresh) (fun r _ => ∃ p, r.1 = (cspiOk, .con p) ∧
      r.2.Listed (p :: ps) ∧ r.2.env.mutex = false ∧ r.2.env.usageCount = l.env.usageCount ∧
      r.2.env.fd = l.env.fd) () := by
  simp only [Lib.allochandle, Lib.isHenv, pure_bind, if_true, Lib.allocCon, bind_assoc]
  refine wlp_perform_bind.2 fun q _ hq => ?_
  cases q with
  | none => exact fun e => Empty.elim e
  | some p =>
    have hp : p ∉ ps := fun hmem => by
      have hused : (l.heap p).isSome = false := hq p rfl
      rw [hl.isSome.2 hmem] at hused
      cases hused
    have hl' : Lib.Listed { l with lastId := l.lastId + 1 } ps :=
      ⟨hl.nodup, hl.head, hl.links, hl.count⟩
    simp only [bind_assoc, pure_bind]
    rw [insertCon_eq hl' hm, pure_bind]
    exact ⟨p, rfl, inserted_listed hl' hp rfl, rfl, rfl, rfl⟩

/-- A connection that is connected is not released. -/
theorem freehandle_con_connected (hc : l.heap p = some c) (hd : c.connected = true) :
    l.freehandle .con (.con p) = Pure.pure (cspiESequence, l) := by
  simp only [Lib.freehandle, reduceCtorEq, if_false, Lib.isHcon, pure_bind, deref_eq hc, hd,
    if_true]

/-- After the connection was taken out the environment has the same users and descriptor. -/
theorem removeEnd_env : (l.removeEnd c).Ensures fun l' => l'.env.mutex = false ∧
    l'.env.usageCount = l.env.usageCount ∧ l'.env.fd = l.env.fd := by
  unfold Lib.removeEnd
  split
  · refine ensures_bind fun _ => ?_
    unfold Lib.destroyEventThread
    split
    · exact confined_bind.2 (ensures_bind fun _ => ⟨rfl, rfl, rfl⟩)
    · exact ⟨rfl, rfl, rfl⟩
  · exact ⟨rfl, rfl, rfl⟩

/-- A release of a connection, while the environment's mutex is free. -/
theorem freehandle_con_given (hl : l.Listed ps) (hm : l.env.mutex = false) (hc : l.heap p = some c)
    (hd : c.connected = false) : (l.freehandle .con (.con p)).Ensures fun r =>
      r.1 = cspiOk ∧ r.2.Listed (ps.erase p) ∧ r.2.env.mutex = false ∧
      r.2.env.usageCount = l.env.usageCount ∧ r.2.env.fd = l.env.fd := by
  refine ensures_of_runs fun tr r hr => ?_
  have hlisted := hr.of_ensures (freehandle_con_listed hl)
  simp only [Lib.freehandle, reduceCtorEq, if_false, Lib.isHcon, pure_bind, deref_eq hc, hd,
    Bool.false_eq_true, removeCon_eq hl hm hc] at hr
  obtain ⟨tr₁, tr₂, l₁, rfl, hend, hr⟩ := runs_bind.1 hr
  obtain ⟨-, rfl⟩ := hr
  obtain ⟨hmutex, husage, hfd⟩ := hend.of_ensures removeEnd_env
  refine ⟨rfl, ?_, hmutex, husage, hfd⟩
  simpa [liveAfter] using hlisted

/-! ## Calls that succeed -/

/-- The answer of a call that succeeds. The system tells the access that a file was opened with. -/
def granted : (c : SysCall) → SysAns c → Prop
  | .setCfg _ _ _, ok => ok = true
  | .getfl f, access => access = some f.access
  | c, x => succeeds c x

theorem allochandle_env_granted (hm : l.env.mutex = false) (ho : l.env.Openable) :
    (l.allochandle .env h).wp granted fun r => r.1.1 = cspiOk ∧ EnvTaken l r := by
  refine wp_and_ensures ?_ (allochandle_env_taken hm)
  have hfirst : l.env.usageCount = 0 → l.env.usageCount + 1 = 1 := fun hu => by rw [hu]; rfl
  have hready := customInitenv_ready (l := l.locked.setEnv fun e =>
    { e with usageCount := e.usageCount + 1 }) (ho.imp_left hfirst)
  rw [allochandle_env_eq hm, wp_bind]
  refine wp_mono (wp_congr hready (only_customInitenv (fun _ _ => Iff.rfl) (fun _ => Iff.rfl)
    (fun _ _ => Iff.rfl) fun _ _ => Iff.rfl)) fun r hr => ?_
  rw [if_neg (not_not.2 hr)]
  exact hr

/-- Without a descriptor a further user is refused. -/
theorem allochandle_env_missing (hm : l.env.mutex = false) (ho : ¬l.env.Openable) :
    (l.allochandle .env h).wp granted fun r => r.1.1 = cspiESystem := by
  obtain ⟨hu, hf⟩ := not_or.1 ho
  have hnext : l.env.usageCount + 1 ≠ 1 := fun h => hu (by bv_omega)
  have hinit := customInitenv_eq (l := l.locked.setEnv fun e =>
    { e with usageCount := e.usageCount + 1 }) hnext (Option.not_isSome_iff_eq_none.1 hf)
  rw [allochandle_env_eq hm, hinit, pure_bind]
  have hne : cspiESystem ≠ cspiOk := by decide
  exact wp_ite.2 ((if_pos hne).mpr rfl)

theorem allochandle_con_granted (hl : l.Listed ps) (hm : l.env.mutex = false) :
    (l.allochandle .con .env).wp granted fun r => r.1.1 = cspiOk := by
  simp only [Lib.allochandle, Lib.isHenv, pure_bind, if_true, Lib.allocCon, bind_assoc]
  refine wp_perform_bind.2 ⟨⟨some 0, rfl⟩, fun q hq => ?_⟩
  obtain ⟨p, rfl⟩ := Option.isSome_iff_exists.1 hq
  have hl' : Lib.Listed { l with lastId := l.lastId + 1 } ps :=
    ⟨hl.nodup, hl.head, hl.links, hl.count⟩
  simp only [bind_assoc, pure_bind]
  rw [insertCon_eq hl' hm, pure_bind]
  rfl

/-! ## The trigger mode -/

variable {f : File} {d : Word} {ep : EnvParams} {flags : Bitmask}

/-- A walk over parameters that the flags do not select. -/
theorem handleParams_unselected {proxy : ParamMap → EnvParams → LibProg ParamResult}
    {es : List ParamMap} (h : es.all (fun e => !flags.hits e.mask) = true) :
    handleParams proxy flags es ep = Pure.pure (cspiOk, ep) := by
  induction es with
  | nil => rfl
  | cons e es ih =>
    rw [List.all_cons, Bool.and_eq_true, Bool.not_eq_true'] at h
    rw [handleParams, if_neg (by simp [h.1]), ih h.2]

theorem customSetMap_unselected :
    (customSetMap d).all (fun e => !envTrigmode.hits e.mask) = true := by
  simp only [customSetMap, paramIlk, paramPm, paramSr, paramSp, List.all_cons, List.all_nil]
  decide

theorem coeffMap_unselected : coeffMap.all (fun e => !envTrigmode.hits e.mask) = true := by
  simp only [coeffMap, List.all_append, List.all_map, Function.comp_def, List.all_eq_true,
    Bool.and_eq_true]
  exact ⟨fun _ _ => rfl, fun _ _ => rfl, fun _ _ => rfl⟩

theorem setParam_granted {e : ParamMap} {ok : Word → Bool} (he : e.validate = .check ok)
    (hok : ok (ep.val e.field) = true) :
    (setParam (some f) e ep).wp granted fun r => r.1 = cspiOk := by
  rw [setParam, he]
  simp only [Validator.run, pure_bind, hok, if_true]
  refine wp_perform_bind.2 ⟨⟨true, rfl⟩, fun set hset => ?_⟩
  obtain rfl : set = true := hset
  rfl

theorem getfeatureparam_granted :
    (getfeatureparam (some f) flags ep).wp granted fun r => r.1 = cspiOk := by
  refine wp_ite.2 ?_
  split
  · refine wp_perform_bind.2 ⟨⟨some 0, rfl⟩, fun customer hcustomer => ?_⟩
    obtain ⟨w, rfl⟩ := Option.isSome_iff_exists.1 hcustomer
    refine wp_perform_bind.2 ⟨⟨some 0, rfl⟩, fun itech hitech => ?_⟩
    obtain ⟨w', rfl⟩ := Option.isSome_iff_exists.1 hitech
    rfl
  · rfl

theorem baseSetenvparam_granted (hp : ep.val .trigMode = trigmodeGet) :
    (baseSetenvparam (some f) envTrigmode ep).wp granted fun r => r.1 = cspiOk := by
  have hvalid : isValidtrigmode (ep.val .trigMode) = true := by rw [hp]; decide
  have hwalk : (handleParams (setParam (some f)) envTrigmode baseSetMap ep).wp granted
      fun r => r.1 = cspiOk := by
    rw [baseSetMap, handleParams, if_pos (by decide)]
    refine wp_bind.2 (wp_mono (setParam_granted rfl hvalid) ?_)
    rintro ⟨rc, ep'⟩ hrc
    obtain rfl : rc = cspiOk := hrc
    rfl
  rw [baseSetenvparam, if_neg (by decide)]
  refine wp_bind.2 (wp_mono hwalk ?_)
  rintro ⟨rc, ep'⟩ hrc
  obtain rfl : rc = cspiOk := hrc
  rfl

theorem resolveSwitches_granted :
    (resolveSwitches (some f) ep).wp granted fun r => r.1 = cspiOk := by
  refine wp_ite.2 ?_
  split
  · refine wp_bind.2 (wp_mono getfeatureparam_granted ?_)
    rintro ⟨rc, ep'⟩ hrc
    obtain rfl : rc = cspiOk := hrc
    rfl
  · rfl

/-- `ebpp_setdscparam` asks for the access to the device even when it has nothing to set. -/
theorem ebppSetdscparam_granted : (ebppSetdscparam (some f) envTrigmode ep).wp granted fun r =>
    r.1 = if f.access = .rdwr then cspiOk else cspiESystem := by
  refine wp_perform_bind.2 ⟨⟨_, rfl⟩, fun access haccess => ?_⟩
  obtain rfl : access = some f.access := haccess
  by_cases hw : f.access = .rdwr
  · simp only [hw, Option.all_some, decide_true, if_true]
    refine wp_bind.2 (wp_mono resolveSwitches_granted ?_)
    rintro ⟨rc, ep'⟩ hrc
    obtain rfl : rc = cspiOk := hrc
    rfl
  · simp only [hw, Option.all_some, decide_false, Bool.false_eq_true, if_false]
    rfl

/-- The trigger mode is set, if the configuration device was opened for writing. -/
theorem setEnvparams_granted (hp : ep.val .trigMode = trigmodeGet) :
    (setEnvparams (some f) d envTrigmode ep).wp granted fun r =>
      r.1 = if f.access = .rdwr then cspiOk else cspiESystem := by
  refine wp_bind.2 (wp_mono (baseSetenvparam_granted hp) ?_)
  rintro ⟨rc, ep₁⟩ hrc
  obtain rfl : rc = cspiOk := hrc
  simp only [ParamResult.andThen, if_true, handleParams_unselected customSetMap_unselected,
    handleParams_unselected coeffMap_unselected, pure_bind]
  refine wp_bind.2 (wp_mono ebppSetdscparam_granted ?_)
  rintro ⟨rc, ep₂⟩ hrc
  dsimp only at hrc
  rw [← hrc]
  by_cases hok : rc = cspiOk
  · subst hok
    rfl
  · refine wp_ite.2 ((if_neg hok).mpr ?_)
    rfl

theorem setenvparam_granted (hm : l.env.mutex = false) (hf : l.env.fd = some f)
    (hp : ep.val .trigMode = trigmodeGet) : (l.setenvparam .env ep envTrigmode).wp granted fun r =>
      r.1.1 = (if f.access = .rdwr then cspiOk else cspiESystem) ∧ l.SameBooks r.2 := by
  refine wp_and_ensures ?_ setenvparam_sameBooks
  simp only [Lib.setenvparam, Lib.isHenv, pure_bind, if_true, lock_eq hm, Lib.customSetenvparam,
    bind_assoc]
  have hfd : l.locked.env.fd = some f := hf
  rw [hfd]
  exact wp_bind.2 (wp_mono (setEnvparams_granted hp) fun r hr => hr)

end LiberaDaq.Cspi
