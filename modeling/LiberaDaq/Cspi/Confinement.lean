import LiberaDaq.Cspi.Calls

/-!
# The calls that the parameters need

A part of the library makes calls of a few kinds only. `Only P p` says that the program `p` makes no
call outside `P`, whatever the system answers; there is a lemma for every function that sets or gets
environment parameters, which asks for the calls that the function may make.
-/

namespace LiberaDaq.Cspi

open LiberaDaq.Interaction Prog

variable {α β : Type} {P : SysCall → Prop} {fd : Option File} {flags : Bitmask} {ep : EnvParams}

/-- The program makes only calls in `P`. -/
abbrev Only (P : SysCall → Prop) (p : LibProg α) : Prop := p.Confined P fun _ => True

/-! ## Rules -/

theorem only_pure (a : α) : Only P (Pure.pure a) := trivial

theorem only_seq {p : LibProg α} {f : α → LibProg β} (h : Only P p) (hf : ∀ a, Only P (f a)) :
    Only P (p >>= f) := confined_seq h hf

theorem only_ite {R : Prop} [Decidable R] {p q : LibProg α} (hp : Only P p) (hq : Only P q) :
    Only P (if R then p else q) := by
  split
  · exact hp
  · exact hq

theorem only_sys {c : SysCall} (h : P c) : Only P (sys c) := ⟨h, fun _ => trivial⟩

theorem only_onFile {bad : α} {k : File → LibProg α} (hk : ∀ f, Only P (k f)) :
    Only P (onFile fd bad k) := by
  cases fd with
  | none => exact only_pure _
  | some f => exact hk f

theorem only_andThen {r : ParamResult} {k : EnvParams → LibProg ParamResult}
    (hk : ∀ p, Only P (k p)) : Only P (r.andThen k) := only_ite (hk _) (only_pure _)

/-! ## Locks and handles -/

section

variable {l : Lib} {h : Handle} {p : ℕ}

theorem only_lock (hhang : P .hang) : Only P l.lock :=
  only_ite ⟨hhang, fun e => e.elim⟩ (only_pure _)

theorem only_lockCache (hhang : P .hang) : Only P l.lockCache :=
  only_ite ⟨hhang, fun e => e.elim⟩ (only_pure _)

theorem only_deref (hfault : P .fault) : Only P (l.deref p) := by
  unfold Lib.deref
  split
  · exact only_pure _
  · exact ⟨hfault, fun e => e.elim⟩

theorem only_isHenv (hfault : P .fault) : Only P (l.isHenv h) := by
  cases h with
  | con p => exact only_seq (only_deref hfault) fun _ => only_pure _
  | _ => exact only_pure _

theorem only_isHcon (hfault : P .fault) : Only P (l.isHcon h) := by
  cases h with
  | con p => exact only_seq (only_deref hfault) fun _ => only_pure _
  | _ => exact only_pure _

end

/-! ## The configuration device -/

theorem only_validator (hgain : ∀ w, P (.toattn w)) (v : Validator) (w : Word) :
    Only P (v.run w) := by
  cases v with
  | setGainlimit =>
    exact only_seq (only_sys (hgain w)) fun _ => only_ite (only_pure _) (only_pure _)
  | _ => exact only_pure _

theorem only_setParam (hgain : ∀ w, P (.toattn w)) {e : ParamMap}
    (hset : ∀ f w, P (.setCfg f e.code w)) (ep : EnvParams) : Only P (setParam fd e ep) := by
  refine only_seq (only_validator hgain _ _) fun _ => only_ite ?_ (only_pure _)
  exact only_seq (only_onFile fun f => only_sys (hset f _)) fun _ => only_pure _

theorem only_getParam (hgain : ∀ w, P (.toattn w)) {e : ParamMap}
    (hget : ∀ f, P (.getCfg f e.code)) (ep : EnvParams) : Only P (getParam fd e ep) := by
  refine only_seq (only_onFile fun f => only_sys (hget f)) fun val => ?_
  cases val with
  | none => exact only_pure _
  | some w => exact only_seq (only_validator hgain _ _) fun _ => only_pure _

/-- A walk makes the calls of the entries that its flags select. -/
theorem only_handleParams {proxy : ParamMap → EnvParams → LibProg ParamResult} {es : List ParamMap}
    (h : ∀ e ∈ es, flags.hits e.mask = true → ∀ p, Only P (proxy e p)) (ep : EnvParams) :
    Only P (handleParams proxy flags es ep) := by
  induction es generalizing ep with
  | nil => exact only_pure _
  | cons e es ih =>
    have ih := ih fun e' he' => h e' (List.mem_cons_of_mem e he')
    rw [handleParams]
    split
    · next hf => exact only_seq (h e List.mem_cons_self hf ep) fun _ => only_andThen ih
    · exact ih ep

/-! ## The other parameters -/

theorem only_getfeatureparam (hget : ∀ f idx, idx = .featureCustomer ∨ idx = .featureItech →
    P (.getCfg f idx)) : Only P (getfeatureparam fd flags ep) := by
  refine only_ite (only_seq (only_onFile fun f => only_sys (hget f _ (.inl rfl)))
    fun customer => ?_) (only_pure _)
  cases customer with
  | none => exact only_pure _
  | some w =>
    refine only_seq (only_onFile fun f => only_sys (hget f _ (.inr rfl))) fun itech => ?_
    cases itech <;> exact only_pure _

theorem only_gethealthparam (hhealth : P .health) : Only P (gethealthparam flags ep) :=
  only_ite (only_seq (only_sys hhealth) fun _ => only_pure _) (only_pure _)

theorem only_dscHandleParams {es : List DscParamMap}
    (hdsc : ∀ e ∈ es, flags.hits e.mask = true → ∀ v, P (.dscMessage e.msg v)) (ep : EnvParams) :
    Only P (ebppDscHandleParams flags es ep) := by
  induction es generalizing ep with
  | nil => exact only_pure _
  | cons e es ih =>
    have ih := ih fun e' he' => hdsc e' (List.mem_cons_of_mem e he')
    unfold ebppDscHandleParams
    split
    · next hf =>
      have hmsg := hdsc e List.mem_cons_self hf
      exact only_ite (only_seq (only_sys (hmsg _)) fun _ => only_andThen ih) (only_pure _)
    · exact ih ep

theorem only_setdscparam (hdsc : ∀ m v, P (.dscMessage m v)) (hfl : ∀ f, P (.getfl f))
    (hget : ∀ f idx, idx = .featureCustomer ∨ idx = .featureItech → P (.getCfg f idx)) :
    Only P (ebppSetdscparam fd flags ep) := by
  have hwrite : Only P (mayWrite fd) :=
    only_onFile fun f => only_seq (only_sys (hfl f)) fun _ => only_pure _
  have hresolve : Only P (resolveSwitches fd ep) :=
    only_ite (only_seq (only_getfeatureparam hget) fun _ => only_andThen fun _ => only_pure _)
      (only_pure _)
  refine only_seq hwrite fun _ => only_ite (only_seq hresolve fun _ => ?_) (only_pure _)
  exact only_andThen (only_dscHandleParams fun _ _ _ => hdsc _)

theorem only_setPllparam (hpll : ∀ cmds, P (.pllSetcmd cmds)) :
    Only P (ebppSetPllparam flags ep) := by
  unfold ebppSetPllparam
  split
  · exact only_pure _
  · exact only_pure _
  · exact only_seq (only_sys (hpll _)) fun _ => only_pure _

/-- What follows the tables in `custom_setenvparam` asks the daemons. -/
theorem only_setDaemons (hdsc : ∀ m v, P (.dscMessage m v)) (hfl : ∀ f, P (.getfl f))
    (hget : ∀ f idx, idx = .featureCustomer ∨ idx = .featureItech → P (.getCfg f idx))
    (hpll : ∀ cmds, P (.pllSetcmd cmds)) {r : ParamResult} :
    Only P (r.andThen (ebppSetdscparam fd flags) >>= fun r =>
      r.andThen (ebppSetPllparam flags)) :=
  only_seq (only_andThen fun _ => only_setdscparam hdsc hfl hget) fun _ =>
    only_andThen fun _ => only_setPllparam hpll

/-- The calls that set parameters are those of the three tables and of the daemons. -/
theorem only_setEnvparams {d : Word}
    (hbase : ∀ p, Only P (handleParams (setParam fd) flags baseSetMap p))
    (hcustom : ∀ p, Only P (handleParams (setParam fd) flags (customSetMap d) p))
    (hcoeff : ∀ p, Only P (handleParams (setParam fd) flags coeffMap p))
    (hdsc : ∀ m v, P (.dscMessage m v)) (hfl : ∀ f, P (.getfl f))
    (hget : ∀ f idx, idx = .featureCustomer ∨ idx = .featureItech → P (.getCfg f idx))
    (hpll : ∀ cmds, P (.pllSetcmd cmds)) : Only P (setEnvparams fd d flags ep) := by
  have hfirst : Only P (baseSetenvparam fd flags ep) :=
    only_ite (only_pure _) (only_seq (hbase _) fun _ => only_andThen fun _ => only_pure _)
  refine only_seq hfirst fun _ => ?_
  refine only_seq (only_andThen hcustom) fun _ => ?_
  refine only_seq (only_andThen hcoeff) fun _ => ?_
  exact only_setDaemons hdsc hfl hget hpll

/-- While the environment is not locked, `cspi_setenvparam` makes no other call. -/
theorem only_setenvparam {l : Lib} (hm : l.env.mutex = false) (hgain : ∀ w, P (.toattn w))
    (hset : ∀ f idx w, P (.setCfg f idx w)) (hdsc : ∀ m v, P (.dscMessage m v))
    (hfl : ∀ f, P (.getfl f)) (hget : ∀ f idx, P (.getCfg f idx))
    (hpll : ∀ cmds, P (.pllSetcmd cmds)) : Only P (l.setenvparam .env ep flags) := by
  have hwalk : ∀ fd es p, Only P (handleParams (setParam fd) flags es p) := fun fd es p =>
    only_handleParams (fun e _ _ => only_setParam hgain fun f w => hset f _ w) p
  have hparams : ∀ fd d, Only P (setEnvparams fd d flags ep) := fun fd d =>
    only_setEnvparams (hwalk fd _) (hwalk fd _) (hwalk fd _) hdsc hfl (fun f idx _ => hget f idx)
      hpll
  rw [Lib.setenvparam, Lib.isHenv]
  refine only_seq (only_pure _) fun _ => only_ite ?_ (only_pure _)
  rw [Lib.lock, if_neg (by simp [hm])]
  exact only_seq (only_pure _) fun _ =>
    only_seq (only_seq (hparams _ _) fun _ => only_pure _) fun _ => only_pure _

theorem only_getPllparam (hpll : P .pllGetstatus) : Only P (ebppGetPllparam flags ep) :=
  only_ite (only_seq (only_sys hpll) fun _ => only_pure _) (only_pure _)

/-- `custom_getenvparam` makes queries, and messages to the DSC server that its flags select. -/
theorem only_customGetenvparam (hgain : ∀ w, P (.toattn w)) (hget : ∀ f idx, P (.getCfg f idx))
    (hhealth : P .health) (hpll : P .pllGetstatus)
    (hdsc : ∀ e ∈ dscGetMap, flags.hits e.mask = true → ∀ v, P (.dscMessage e.msg v)) :
    Only P (customGetenvparam fd flags ep) := by
  have hwalk : ∀ es p, Only P (handleParams (getParam fd) flags es p) := fun es p =>
    only_handleParams (fun _ _ _ => only_getParam hgain fun f => hget f _) p
  have hbase : ∀ p, Only P (baseGetenvparam fd flags p) := fun p => by
    refine only_ite (only_pure _) (only_seq (hwalk _ _) fun _ => ?_)
    refine only_seq (only_andThen fun _ => only_gethealthparam hhealth) fun _ => ?_
    exact only_andThen fun _ => only_getfeatureparam fun f idx _ => hget f idx
  refine only_ite (only_pure _) (only_seq (hbase _) fun _ => ?_)
  refine only_seq (only_andThen fun _ => hwalk _ _) fun _ => ?_
  refine only_seq (only_andThen (only_dscHandleParams hdsc)) fun _ => ?_
  exact only_andThen fun _ => only_getPllparam hpll

/-! ## The operators -/

/-- `custom_initop` asks for the parameters of the cache and for its two calibration registers. -/
theorem only_customInitop {l : Lib} (hhang : P .hang) (huninit : P .uninitEnv)
    (hask : ∀ fd ep, Only P (customGetenvparam fd cacheMask ep)) (hget : ∀ f idx, P (.getCfg f idx)) :
    Only P l.customInitop := by
  have hupdate : ∀ l : Lib, Only P l.ebppUpdateCache := by
    intro l
    refine only_seq (only_sys huninit) fun ep => only_seq (hask _ _) fun r => ?_
    refine only_ite (only_seq (only_lockCache hhang) fun l => ?_) (only_pure _)
    refine only_seq (only_onFile fun f => only_sys (hget f _)) fun x => ?_
    cases x with
    | none => exact only_pure _
    | some x =>
      refine only_seq (only_onFile fun f => only_sys (hget f _)) fun y => ?_
      cases y <;> exact only_pure _
  refine only_ite (only_seq (only_lock hhang) fun l => ?_) (only_pure _)
  exact only_seq (hupdate l) fun _ => only_pure _

theorem only_customGetdefaultop {l : Lib} {mode : Mode} (h : Only P l.customInitop) :
    Only P (l.customGetdefaultop mode) := by
  cases mode with
  | dd => exact only_seq h fun _ => only_pure _
  | _ => exact only_pure _

/-- An operator stores its atoms. -/
theorem only_applyOp {tf : Transform} {op : Operator} {cache : Cache} {dest : Buffer}
    {atom : ℕ → Atom} {n : ℕ} (hhang : P .hang)
    (hstore : ∀ members, P (.store dest (op.atoms members n))) :
    Only P (applyOp tf op cache dest atom n) := by
  unfold applyOp
  split
  · exact ⟨hhang, fun e => e.elim⟩
  · exact only_seq (only_sys (hstore _)) fun _ => only_pure _

end LiberaDaq.Cspi
