import LiberaDaq.Cspi.Confinement
import LiberaDaq.Cspi.Frames

/-!
# What most calls keep

Most calls of the library leave its cache alone and ask nothing of the system that changes a
parameter. A property of the cache and of the environment that such calls keep (`Steady`) is kept by
all of the library but for the functions that set, get or use parameters; for those that set or get
them it is enough that the exchange keeps it.
-/

namespace LiberaDaq.Cspi

open LiberaDaq.Interaction Prog

/-! ## Plain calls -/

/-- A call that exchanges no parameter, but for the decimation that `custom_initenv` asks for. -/
def plainCall : SysCall → Bool
  | .getCfg _ idx => idx = .decDdc
  | .setCfg _ _ _ | .dscMessage _ _ | .pllSetcmd _ | .pllGetstatus | .toattn _ | .health => false
  | _ => true

/-- The calls that exchange no parameter. -/
def Plain (c : SysCall) : Prop := plainCall c = true

/-- The cache is the same, and marked if it was. -/
structure Lib.SameCache (l l' : Lib) : Prop where
  cache : l'.cache = l.cache
  mutex : l'.cacheMutex = l.cacheMutex
  dirty : l.dirty = true → l'.dirty = true

variable {α β τ : Type} {l l' : Lib} {tf : Transform} {fd : Option File} {flags : Bitmask}
  {ep : EnvParams} {c : Connection} {h : Handle} {q : ℕ} {dest : Buffer}
  {serve : Serves SysCall SysAns τ} {I : Lib → τ → Prop}

/-- The property holds of the library and the environment after the program if it did before. -/
def Keeps (serve : Serves SysCall SysAns τ) (I : Lib → τ → Prop) (p : LibProg (α × Lib))
    (l : Lib) : Prop := ∀ u, I l u → p.wlp serve (fun r u' => I r.2 u') u

/-- The program changes the environment only in ways that keep the property. -/
def Quiet (serve : Serves SysCall SysAns τ) (I : Lib → τ → Prop) (p : LibProg α) (l : Lib) : Prop :=
  ∀ u, I l u → p.wlp serve (fun _ u' => I l u') u

/-- The property depends on the cache alone, and plain calls keep it. -/
structure Steady (serve : Serves SysCall SysAns τ) (I : Lib → τ → Prop) : Prop where
  call : ∀ l c x v v', Plain c → serve c x v v' → I l v → I l v'
  same : ∀ {l l' v}, l.SameCache l' → I l v → I l' v

/-! ## Programs of plain calls -/

theorem plain_lock : Only Plain l.lock := only_lock rfl

theorem plain_deref : Only Plain (l.deref q) := only_deref rfl

theorem plain_isHenv : Only Plain (l.isHenv h) := only_isHenv rfl

theorem plain_isHcon : Only Plain (l.isHcon h) := only_isHcon rfl

theorem plain_registration {pid uid mask : Word} :
    Only Plain (doEventHandlerRegistration pid uid mask) := by
  refine only_seq (only_sys rfl) fun fd => ?_
  cases fd with
  | none => exact only_pure _
  | some n =>
    refine only_seq (only_sys rfl) fun _ => only_ite ?_ ?_
    · exact only_seq (only_sys rfl) fun _ => only_pure _
    · exact only_seq (only_sys rfl) fun _ => only_pure _

theorem plain_createEventPipe {pid : Word} : Only Plain (createEventPipe pid) :=
  only_seq (only_sys rfl) fun _ => only_ite (only_seq (only_sys rfl) fun _ => only_pure _)
    (only_pure _)

theorem plain_testDrvmismatch : Only Plain (testDrvmismatch fd) := by
  refine only_onFile fun f => only_seq (only_sys rfl) fun magic => ?_
  cases magic <;> exact only_pure _

theorem plain_setconCustom {cp : ConParams} : Only Plain (setconCustom c cp flags) := by
  have hdec : Only Plain (setconDec c cp) := by
    refine only_onFile fun f => only_ite (only_pure _) (only_ite ?_ (only_pure _))
    exact only_seq (only_sys rfl) fun _ => only_pure _
  have hnonblock : Only Plain (setconNonblock c cp) := by
    refine only_onFile fun f => only_ite (only_pure _) (only_seq (only_sys rfl) fun _ => ?_)
    exact only_ite (only_pure _) (only_seq (only_sys rfl) fun _ => only_pure _)
  have hnext : ∀ rc : ℤ, Only Plain (if rc ≠ cspiOk then Pure.pure rc else
      if flags.hits conSanonblock then setconNonblock c cp else Pure.pure cspiOk) := fun rc =>
    only_ite (only_pure _) (only_ite hnonblock (only_pure _))
  unfold setconCustom
  exact only_ite (only_seq hdec hnext) (only_seq (only_pure _) hnext)

theorem plain_settime {ts : SetTimestamp} : Only Plain (settime ts flags) := by
  refine only_ite (only_pure _) (only_seq (only_sys rfl) fun fd => ?_)
  cases fd with
  | none => exact only_pure _
  | some n =>
    have hlast : ∀ f (ok : Bool), Only Plain (sys (.close f) >>= fun _ =>
        Pure.pure (if ok then cspiOk else cspiESystem)) := fun f ok =>
      only_seq (only_sys rfl) fun _ => only_pure _
    have hst : ∀ f (ok : Bool), Only Plain (if ok && flags.hits timeSt then
        sys (.setSt f ts) >>= fun ok => sys (.close f) >>= fun _ =>
          Pure.pure (if ok then cspiOk else cspiESystem)
        else sys (.close f) >>= fun _ => Pure.pure (if ok then cspiOk else cspiESystem)) :=
      fun f ok => only_ite (only_seq (only_sys rfl) fun _ => hlast _ _) (hlast _ _)
    exact only_ite (only_seq (only_sys rfl) fun _ => hst _ _) (hst _ true)

/-! ## Rules -/

theorem keeps_ite {R : Prop} [Decidable R] {p p' : LibProg (α × Lib)} (hp : R → Keeps serve I p l)
    (hp' : ¬R → Keeps serve I p' l) : Keeps serve I (if R then p else p') l := by
  split
  · next h => exact hp h
  · next h => exact hp' h

theorem keeps_seq {p : LibProg (α × Lib)} {f : α × Lib → LibProg (β × Lib)} (h : Keeps serve I p l)
    (hf : ∀ a l', Keeps serve I (f (a, l')) l') : Keeps serve I (p >>= f) l :=
  fun u hu => wlp_seq (h u hu) fun r u' hr => hf r.1 r.2 u' hr

theorem Quiet.seq {p : LibProg α} {f : α → LibProg (β × Lib)} (h : Quiet serve I p l)
    (hf : ∀ a, Keeps serve I (f a) l) : Keeps serve I (p >>= f) l :=
  fun u hu => wlp_seq (h u hu) fun a u' hu' => hf a u' hu'

variable (hs : Steady serve I)

include hs

theorem Keeps.of_same {p : LibProg (α × Lib)} (h : Keeps serve I p l') (hl : l.SameCache l') :
    Keeps serve I p l := fun u hu => h u (hs.same hl hu)

theorem Steady.done {a : α} (h : l.SameCache l') : Keeps serve I (Pure.pure (a, l')) l :=
  fun _ hu => hs.same h hu

theorem Steady.quiet {p : LibProg α} (h : Only Plain p) : Quiet serve I p l :=
  fun _ hu => wlp_mono (wlp_keep h (fun c x v v' hc hx hv => hs.call l c x v v' hc hx hv) hu)
    fun _ _ h => h.2

theorem Steady.plain {p : LibProg α} {f : α → LibProg (β × Lib)} (h : Only Plain p)
    (hf : ∀ a, Keeps serve I (f a) l) : Keeps serve I (p >>= f) l := (hs.quiet h).seq hf

/-- A step on the library that leaves the cache alone. -/
theorem Steady.step {p : LibProg Lib} {f : Lib → LibProg (β × Lib)} (h : Only Plain p)
    (hp : p.Ensures fun l' => l.SameCache l') (hf : ∀ l', Keeps serve I (f l') l') :
    Keeps serve I (p >>= f) l := by
  refine fun u hu => wlp_seq (wlp_and (hs.quiet h u hu) (wlp_of_ensures hp)) ?_
  rintro l' u' ⟨hu', hl⟩
  exact hf l' u' (hs.same hl hu')

/-! ## Locks and pointers -/

theorem Steady.lock {f : Lib → LibProg (β × Lib)} (hf : ∀ l', Keeps serve I (f l') l') :
    Keeps serve I (l.lock >>= f) l := hs.step plain_lock (ensures_lock.2 fun _ => ⟨rfl, rfl, id⟩) hf

theorem Steady.assign {p : Option ℕ} {g : Connection → Connection} {f : Lib → LibProg (β × Lib)}
    (hf : ∀ l', Keeps serve I (f l') l') : Keeps serve I (l.assign p g >>= f) l := by
  refine hs.step ?_ (ensures_assign.2 fun _ => ⟨rfl, rfl, id⟩) hf
  cases p with
  | none => exact only_pure _
  | some p => exact only_seq plain_deref fun _ => only_pure _

/-! ## Handles -/

theorem Steady.createEventThread : Keeps serve I (l.createEventThread c) l := by
  refine keeps_ite (fun _ => ?_) fun _ => ?_
  · exact hs.plain plain_registration fun _ => hs.done ⟨rfl, rfl, id⟩
  refine keeps_ite (fun _ => hs.done ⟨rfl, rfl, id⟩) fun _ => ?_
  refine hs.plain plain_createEventPipe fun _ => ?_
  refine keeps_ite (fun _ => ?_) fun _ => hs.done ⟨rfl, rfl, id⟩
  refine hs.plain (only_sys rfl) fun _ => keeps_ite (fun _ => ?_) fun _ _ _ e => Empty.elim e
  refine hs.plain (only_sys rfl) fun _ => keeps_ite (fun _ => ?_) fun _ => hs.done ⟨rfl, rfl, id⟩
  exact hs.plain plain_registration fun _ => hs.done ⟨rfl, rfl, id⟩

theorem Steady.baseInitenv : Keeps serve I l.baseInitenv l := by
  refine keeps_ite (fun _ => ?_) fun _ =>
    hs.plain plain_testDrvmismatch fun _ => hs.done ⟨rfl, rfl, id⟩
  refine hs.plain (only_sys rfl) fun fd => ?_
  cases fd with
  | none => exact hs.plain (only_sys rfl) fun _ => hs.done ⟨rfl, rfl, id⟩
  | some n => exact hs.plain plain_testDrvmismatch fun _ => hs.done ⟨rfl, rfl, id⟩

theorem Steady.allocEnv : Keeps serve I l.allocEnv l := by
  refine hs.lock fun l => ?_
  refine (keeps_seq (keeps_seq hs.baseInitenv fun rc l => ?_) fun rc l => ?_).of_same hs
    ⟨rfl, rfl, id⟩
  · refine keeps_ite (fun _ => ?_) fun _ => hs.done ⟨rfl, rfl, fun _ => rfl⟩
    refine hs.plain (only_onFile fun _ => only_sys rfl) fun val => ?_
    cases val <;> exact hs.done ⟨rfl, rfl, fun _ => rfl⟩
  · exact hs.done ⟨rfl, rfl, id⟩

theorem Steady.destroyEnv : Keeps serve I l.destroyEnv l := by
  refine hs.lock fun l => keeps_ite (fun _ => ?_) fun _ => hs.done ⟨rfl, rfl, id⟩
  refine keeps_ite (fun _ => hs.done ⟨rfl, rfl, id⟩) fun _ => ?_
  refine hs.plain (only_onFile fun _ => only_sys rfl) fun _ => ?_
  exact hs.plain (only_sys rfl) fun _ => hs.done ⟨rfl, rfl, id⟩

theorem Steady.freeEnv {f : Lib → LibProg (β × Lib)} (hf : ∀ l', Keeps serve I (f l') l') :
    Keeps serve I (l.freeEnv >>= f) l := by
  simp only [Lib.freeEnv, bind_assoc, pure_bind]
  exact hs.lock fun l => (hf _).of_same hs ⟨rfl, rfl, id⟩

theorem Steady.allocCon {f : ℤ × ℕ × Lib → LibProg (β × Lib)}
    (hf : ∀ rc p l', Keeps serve I (f (rc, p, l')) l') : Keeps serve I (l.allocCon >>= f) l := by
  simp only [Lib.allocCon, bind_assoc]
  refine hs.plain (only_sys rfl) fun q => ?_
  cases q with
  | none => exact fun _ _ e => Empty.elim e
  | some p =>
    simp only [Lib.insertCon, bind_assoc, pure_bind]
    refine (hs.lock fun l => ?_).of_same hs ⟨rfl, rfl, id⟩
    refine (hs.assign fun l => ?_).of_same hs ⟨rfl, rfl, id⟩
    exact (hf _ _ _).of_same hs ⟨rfl, rfl, id⟩

theorem Steady.removeCon {f : Lib → LibProg (β × Lib)} (hf : ∀ l', Keeps serve I (f l') l') :
    Keeps serve I (l.removeCon q >>= f) l := by
  simp only [Lib.removeCon, bind_assoc]
  refine hs.lock fun l => hs.plain plain_deref fun c => ?_
  refine hs.assign fun l => hs.assign fun l => ?_
  refine (hs.assign fun l => ?_).of_same hs ⟨rfl, rfl, id⟩
  split
  · simp only [bind_assoc]
    refine (hs.plain plain_registration fun _ => ?_).of_same hs ⟨rfl, rfl, id⟩
    unfold Lib.destroyEventThread
    split
    · simp only [bind_assoc, pure_bind]
      exact hs.plain (only_sys rfl) fun _ => (hf _).of_same hs ⟨rfl, rfl, id⟩
    · exact (hf _).of_same hs ⟨rfl, rfl, id⟩
  · exact (hf _).of_same hs ⟨rfl, rfl, id⟩

theorem Steady.allochandle {type : HandleType} : Keeps serve I (l.allochandle type h) l := by
  cases type with
  | env =>
    refine keeps_seq hs.allocEnv fun rc l => keeps_ite (fun _ => ?_) fun _ => hs.done ⟨rfl, rfl, id⟩
    exact hs.freeEnv fun l => hs.done ⟨rfl, rfl, id⟩
  | con =>
    refine hs.plain plain_isHenv fun _ => keeps_ite (fun _ => ?_) fun _ => hs.done ⟨rfl, rfl, id⟩
    exact hs.allocCon fun _ _ _ => hs.done ⟨rfl, rfl, id⟩

theorem Steady.freehandle {type : HandleType} : Keeps serve I (l.freehandle type h) l := by
  refine keeps_ite (fun _ => hs.done ⟨rfl, rfl, id⟩) fun _ => ?_
  cases type with
  | env =>
    refine hs.plain plain_isHenv fun _ => keeps_ite (fun _ => ?_) fun _ => hs.done ⟨rfl, rfl, id⟩
    refine keeps_seq hs.destroyEnv fun rc l => ?_
    refine keeps_ite (fun _ => ?_) fun _ => hs.done ⟨rfl, rfl, id⟩
    exact hs.freeEnv fun l => hs.done ⟨rfl, rfl, id⟩
  | con =>
    refine hs.plain plain_isHcon fun con => ?_
    cases con with
    | none => exact hs.done ⟨rfl, rfl, id⟩
    | some con =>
      refine keeps_ite (fun _ => hs.done ⟨rfl, rfl, id⟩) fun _ => ?_
      exact hs.removeCon fun l => hs.done ⟨rfl, rfl, id⟩

theorem Steady.setlibparam {superuser : Word} : Keeps serve I (l.setlibparam superuser) l :=
  hs.lock fun _ => hs.done ⟨rfl, rfl, id⟩

/-! ## Parameters and connections -/

/-- For `cspi_setenvparam` it is enough that the exchange keeps the property, or that the call marks
the cache and the property holds of every marked cache. -/
theorem Steady.setenvparam (hq : (∀ fd d l, Quiet serve I (setEnvparams fd d flags ep) l) ∨
      flags.hits cacheMask = true ∧ ∀ l u, l.dirty = true → I l u) :
    Keeps serve I (l.setenvparam h ep flags) l := by
  refine hs.plain plain_isHenv fun _ => keeps_ite (fun _ => ?_) fun _ => hs.done ⟨rfl, rfl, id⟩
  refine hs.lock fun l => keeps_seq ?_ fun _ _ => hs.done ⟨rfl, rfl, id⟩
  rcases hq with hq | ⟨hf, hmarked⟩
  · exact (hq _ _ l).seq fun _ => hs.done ⟨rfl, rfl, fun hd => by simp [hd]⟩
  · intro u _
    refine wlp_seq (wlp_of_ensures (ensures_true _)) fun r u' _ => ?_
    exact hmarked _ _ (by simp [hf])

/-- For `cspi_getenvparam` it is enough that the exchange keeps the property. -/
theorem Steady.getenvparam (hq : ∀ fd l, Quiet serve I (customGetenvparam fd flags ep) l) :
    Keeps serve I (l.getenvparam h ep flags) l := by
  refine hs.plain plain_isHenv fun _ => keeps_ite (fun _ => ?_) fun _ => hs.done ⟨rfl, rfl, id⟩
  exact hs.lock fun l => (hq _ l).seq fun _ => hs.done ⟨rfl, rfl, id⟩

theorem Steady.baseSetconparam {cp : ConParams} {f : ℤ × Connection × Lib → LibProg (β × Lib)}
    (hf : ∀ rc c l', Keeps serve I (f (rc, c, l')) l') :
    Keeps serve I (l.baseSetconparam q c cp flags >>= f) l := by
  unfold Lib.baseSetconparam
  split
  · exact hf _ _ _
  · dsimp only
    split
    · simp only [bind_assoc, pure_bind]
      refine hs.plain (only_sys rfl) fun pid => (hs.lock fun l => ?_).of_same hs ⟨rfl, rfl, id⟩
      exact keeps_seq hs.createEventThread fun rc l => (hf _ _ _).of_same hs ⟨rfl, rfl, id⟩
    · exact (hf _ _ _).of_same hs ⟨rfl, rfl, id⟩

theorem Steady.setconparam {cp : ConParams} : Keeps serve I (l.setconparam h cp flags) l := by
  refine hs.plain plain_isHcon fun con => ?_
  cases con with
  | none => exact hs.done ⟨rfl, rfl, id⟩
  | some con =>
    refine hs.baseSetconparam fun rc c l => keeps_ite (fun _ => hs.done ⟨rfl, rfl, id⟩) fun _ => ?_
    exact hs.plain plain_setconCustom fun _ => hs.done ⟨rfl, rfl, id⟩

theorem Steady.connect : Keeps serve I (l.connect h) l := by
  refine hs.plain plain_isHcon fun con => ?_
  cases con with
  | none => exact hs.done ⟨rfl, rfl, id⟩
  | some con =>
    refine keeps_ite (fun _ => hs.done ⟨rfl, rfl, id⟩) fun _ => ?_
    refine keeps_ite (fun _ => hs.done ⟨rfl, rfl, id⟩) fun _ => ?_
    refine hs.plain (only_sys rfl) fun fd => ?_
    cases fd <;> exact hs.done ⟨rfl, rfl, id⟩

theorem Steady.disconnect : Keeps serve I (l.disconnect h) l := by
  refine hs.plain plain_isHcon fun con => ?_
  cases con with
  | none => exact hs.done ⟨rfl, rfl, id⟩
  | some con =>
    refine hs.plain (only_onFile fun _ => only_sys rfl) fun closed => ?_
    exact keeps_ite (fun _ => hs.done ⟨rfl, rfl, id⟩) fun _ => hs.done ⟨rfl, rfl, id⟩

theorem Steady.seek {o : BitVec 64} {s : Seek} : Keeps serve I (l.seek h o s) l := by
  refine hs.plain plain_isHcon fun con => ?_
  cases con with
  | none => exact hs.done ⟨rfl, rfl, id⟩
  | some con =>
    refine hs.plain (only_onFile fun f => only_ite (only_pure _) ?_) fun _ => hs.done ⟨rfl, rfl, id⟩
    exact only_seq (only_sys rfl) fun _ => only_pure _

theorem Steady.gettimestamp : Keeps serve I (l.gettimestamp h) l := by
  refine hs.plain plain_isHcon fun con => ?_
  cases con with
  | none => exact hs.done ⟨rfl, rfl, id⟩
  | some con =>
    refine keeps_ite (fun _ => hs.done ⟨rfl, rfl, id⟩) fun _ => ?_
    exact keeps_ite (fun _ => hs.done ⟨rfl, rfl, id⟩) fun _ => hs.done ⟨rfl, rfl, id⟩

theorem Steady.get : Keeps serve I (l.get h dest) l := by
  refine hs.plain plain_isHcon fun con => ?_
  cases con with
  | none => exact hs.done ⟨rfl, rfl, id⟩
  | some con =>
    refine keeps_ite (fun _ => hs.done ⟨rfl, rfl, id⟩) fun _ => ?_
    cases con.2.fd with
    | none => exact hs.done ⟨rfl, rfl, id⟩
    | some f =>
      refine keeps_ite (fun _ => hs.done ⟨rfl, rfl, id⟩) fun _ => ?_
      refine hs.plain (only_sys rfl) fun r => ?_
      cases r <;> exact hs.done ⟨rfl, rfl, id⟩


end LiberaDaq.Cspi
