import LiberaDaq.Cspi.Confinement
import LiberaDaq.Cspi.Handles

/-!
# Allocating a handle

What a failed `cspi_allochandle` leaves behind. The function counts a new user of the environment,
opens the configuration device for the first one, and asks it for its magic number and its
decimation; when one of these fails, only the count is taken back. So the device stays open when a
query fails after it was opened, and a connection for which there is no memory is written to all the
same. In all other cases nothing is left, and a later allocation succeeds (`allochandle_clean_iff`).
-/

namespace LiberaDaq.Cspi

open LiberaDaq.Interaction LiberaDaq.Memory Prog

variable {l l' : Lib} {ps : List ℕ} {type : HandleType} {h : Handle} {tr : List SysEvent}

/-! ## Succeeding calls -/

/-- The answer of a call that succeeds. -/
def succeeds : (c : SysCall) → SysAns c → Prop
  | .open _ _, fd => fd.isSome
  | .getMagic _, magic => magic = some liberaMagic
  | .getCfg _ _, val => val.isSome
  | .malloc _, q => q.isSome
  | _, _ => True

/-- With calls that succeed an allocation succeeds, of the environment and of a connection. -/
structure Lib.Allocates (l : Lib) : Prop where
  env : (l.allochandle .env .null).wp succeeds fun r => r.1.1 = cspiOk
  con : (l.allochandle .con .env).wp succeeds fun r => r.1.1 = cspiOk

/-- There is a descriptor for the configuration device, or the next user opens it. -/
def Environment.Openable (e : Environment) : Prop := e.usageCount = 0 ∨ e.fd.isSome

theorem freeEnv_eq (hm : l.env.mutex = false) : l.freeEnv =
    Pure.pure (l.locked.setEnv fun e => { e with usageCount := e.usageCount - 1 }).unlock := by
  rw [Lib.freeEnv, lock_eq hm, pure_bind]

/-- An allocation of the environment, when its mutex is free. -/
theorem allochandle_env_eq (hm : l.env.mutex = false) : l.allochandle .env h =
    (l.locked.setEnv fun e => { e with usageCount := e.usageCount + 1 }).customInitenv >>= fun r =>
      if r.1 ≠ cspiOk then Pure.pure ((r.1, .null),
        (r.2.unlock.locked.setEnv fun e => { e with usageCount := e.usageCount - 1 }).unlock)
      else Pure.pure ((r.1, .env), r.2.unlock) := by
  simp only [Lib.allochandle, Lib.allocEnv, lock_eq hm, pure_bind, bind_assoc]
  rfl

/-- What `test_drvmismatch` finds, by the answer. -/
inductive Checked (f : File) : ℤ → List SysEvent → Prop
  | failed : Checked f cspiESystem [⟨.getMagic f, none⟩]
  | version {magic : Word} (h : magic ≠ liberaMagic) :
    Checked f cspiEVersion [⟨.getMagic f, some magic⟩]
  | ok : Checked f cspiOk [⟨.getMagic f, some liberaMagic⟩]

/-- What `base_initenv` does for a new user, who is counted already. -/
inductive Opened (l : Lib) : ℤ × Lib → List SysEvent → Prop
  | failed {b : Bool} (hu : l.env.usageCount = 1) :
    Opened l (cspiESystem, l.setEnv fun e => { e with fd := none })
      [⟨.open .cfg l.env.access, none⟩, ⟨.sigaction, b⟩]
  | first {n : ℕ} {rc : ℤ} {tr : List SysEvent} (hu : l.env.usageCount = 1)
    (hc : Checked ⟨n, l.env.access⟩ rc tr) :
    Opened l (rc, l.setEnv fun e => { e with fd := some ⟨n, l.env.access⟩ })
      (⟨.open .cfg l.env.access, some n⟩ :: tr)
  | missing (hu : l.env.usageCount ≠ 1) (hf : l.env.fd = none) : Opened l (cspiESystem, l) []
  | later {f : File} {rc : ℤ} {tr : List SysEvent} (hu : l.env.usageCount ≠ 1)
    (hf : l.env.fd = some f) (hc : Checked f rc tr) : Opened l (rc, l) tr

/-- What `custom_initenv` does for a new user. -/
inductive Initiated (l : Lib) : ℤ × Lib → List SysEvent → Prop
  | stopped {l' : Lib} {rc : ℤ} {tr : List SysEvent} (h : Opened l (rc, l') tr) (hrc : rc ≠ 0) :
    Initiated l (rc, { l' with dirty := true }) tr
  | failed {l' : Lib} {f : File} {tr : List SysEvent} (h : Opened l (0, l') tr)
    (hf : l'.env.fd = some f) :
    Initiated l (cspiESystem, { l' with dirty := true }) (tr ++ [⟨.getCfg f .decDdc, none⟩])
  | ready {l' : Lib} {f : File} {d : Word} {tr : List SysEvent} (h : Opened l (0, l') tr)
    (hf : l'.env.fd = some f) :
    Initiated l (0, { l' with decimation := d, dirty := true })
      (tr ++ [⟨.getCfg f .decDdc, some d⟩])

section

variable {τ : Type} {serve : Serves SysCall SysAns τ} {u : τ}

theorem testDrvmismatch_checked {f : File} {t : List SysEvent} :
    (testDrvmismatch (some f)).wlp (record serve)
      (fun rc v => ∃ tr, v.2 = t ++ tr ∧ Checked f rc tr) (u, t) := by
  rintro magic ⟨u', _⟩ ⟨-, rfl⟩
  cases magic with
  | none => exact ⟨_, rfl, .failed⟩
  | some magic =>
    by_cases hm : magic = liberaMagic
    · subst hm
      exact ⟨_, rfl, .ok⟩
    · refine ⟨_, rfl, ?_⟩
      rw [if_neg hm]
      exact .version hm

theorem baseInitenv_opened :
    l.baseInitenv.wlp (record serve) (fun r v => Opened l r v.2) (u, []) := by
  unfold Lib.baseInitenv
  split
  · next hu =>
    refine wlp_perform_bind.2 ?_
    rintro fd ⟨u', _⟩ ⟨-, rfl⟩
    cases fd with
    | none =>
      rintro b ⟨u₂, _⟩ ⟨-, rfl⟩
      exact .failed hu
    | some n =>
      refine wlp_seq testDrvmismatch_checked ?_
      rintro rc v ⟨tr, hv, hc⟩
      refine (congrArg (Opened l _) hv).mpr ?_
      exact .first hu hc
  · next hu =>
    cases hf : l.env.fd with
    | none => exact .missing hu hf
    | some f =>
      refine wlp_seq testDrvmismatch_checked ?_
      rintro rc v ⟨tr, hv, hc⟩
      refine (congrArg (Opened l _) hv).mpr ?_
      exact .later hu hf hc

/-- With a descriptor the check was made. -/
theorem Opened.fd {tr : List SysEvent} (h : Opened l (0, l') tr) : l'.env.fd.isSome := by
  cases h with
  | first => rfl
  | later hu hf hc => rw [hf]; rfl

theorem customInitenv_initiated :
    l.customInitenv.wlp (record serve) (fun r v => Initiated l r v.2) (u, []) := by
  unfold Lib.customInitenv
  refine wlp_seq baseInitenv_opened ?_
  rintro ⟨rc, l'⟩ ⟨u', t⟩ h
  dsimp only
  split
  · next hrc =>
    subst hrc
    obtain ⟨f, hf⟩ := Option.isSome_iff_exists.1 h.fd
    rw [hf]
    refine wlp_perform_bind.2 ?_
    rintro val ⟨u₂, _⟩ ⟨-, rfl⟩
    cases val with
    | none => exact .failed h hf
    | some d => exact .ready h hf
  · next hrc => exact .stopped h hrc

end

/-- The calls of `custom_initenv`. -/
theorem only_customInitenv {P : SysCall → Prop} (hopen : ∀ access, P (.open .cfg access))
    (hsig : P .sigaction) (hmagic : ∀ f, P (.getMagic f)) (hget : ∀ f, P (.getCfg f .decDdc)) :
    Only P l.customInitenv := by
  have hcheck : ∀ fd, Only P (testDrvmismatch fd) := fun fd => by
    refine only_onFile fun f => only_seq (only_sys (hmagic f)) fun magic => ?_
    cases magic <;> exact only_pure _
  have hbase : Only P l.baseInitenv := by
    refine only_ite (only_seq (only_sys (hopen _)) fun fd => ?_)
      (only_seq (hcheck _) fun _ => only_pure _)
    cases fd with
    | none => exact only_seq (only_sys hsig) fun _ => only_pure _
    | some n => exact only_seq (hcheck _) fun _ => only_pure _
  refine only_seq hbase fun r =>
    only_ite (only_seq (only_onFile fun f => only_sys (hget f)) fun val => ?_) (only_pure _)
  cases val <;> exact only_pure _

/-- A query to the configuration device that gives no or a wrong answer. -/
def Refused : SysEvent → Prop
  | ⟨.getMagic _, magic⟩ => magic ≠ some liberaMagic
  | ⟨.getCfg _ _, val⟩ => val = none
  | _ => False

/-- Nothing is left of a failed allocation: the handle is null, the environment is as before, a
configuration device that was opened is closed, and a later allocation succeeds. -/
structure NothingLeft (l : Lib) (tr : List SysEvent) (r : (ℤ × Handle) × Lib) : Prop where
  handle : r.1.2 = .null
  usage : r.2.env.usageCount = l.env.usageCount
  list : l.SameList r.2
  closed : ∀ n acc, ⟨.open .cfg acc, some n⟩ ∈ tr → ⟨.close ⟨n, acc⟩, true⟩ ∈ tr
  again : r.2.Allocates

/-- The law of an attempt: it returns, and nothing is left when it fails. -/
def Lawful (l : Lib) (tr : List SysEvent) : Option ((ℤ × Handle) × Lib) → Prop
  | none => False
  | some r => r.1.1 ≠ cspiOk → NothingLeft l tr r

/-- The attempt begins with a free mutex, with a descriptor that is or will be open (a connection
needs none) and with a handle that is not a connection of the past; there is memory; and no query
fails after the configuration device was opened. -/
structure Clean (l : Lib) (type : HandleType) (h : Handle) (tr : List SysEvent) : Prop where
  mutex : l.env.mutex = false
  openable : l.env.Openable ∨ type = .con ∧ h = .env
  handle : type = .con → ∀ p, h = .con p → (l.heap p).isSome
  malloc : ∀ used, ⟨.malloc used, none⟩ ∉ tr
  opened : ∀ n acc, ⟨.open .cfg acc, some n⟩ ∈ tr → ∀ e ∈ tr, ¬Refused e

/-- What is known of the initialisation from its calls. -/
structure Initiation (l : Lib) (rc : ℤ) (l' : Lib) (tr : List SysEvent) : Prop where
  usage : l'.env.usageCount = l.env.usageCount
  mutex : l'.env.mutex = l.env.mutex
  list : l.SameList l'
  ok : rc = cspiOk ↔ l'.env.fd.isSome ∧ ∀ e ∈ tr, ¬Refused e
  opened : (∃ n acc, ⟨.open .cfg acc, some n⟩ ∈ tr) ↔ l.env.usageCount = 1 ∧ l'.env.fd.isSome
  later : l.env.usageCount ≠ 1 → l'.env.fd = l.env.fd
  close : ∀ f b, ⟨.close f, b⟩ ∉ tr
  malloc : ∀ used q, ⟨.malloc used, q⟩ ∉ tr

theorem Checked.refused_iff {f : File} {rc : ℤ} (h : Checked f rc tr) :
    rc = cspiOk ↔ ∀ e ∈ tr, ¬Refused e := by
  cases h with
  | failed => exact iff_of_false (by decide) (by simp [Refused])
  | version hm => exact iff_of_false (by decide) (by simp [Refused, hm])
  | ok => exact iff_of_true rfl (by simp [Refused])

theorem Checked.mem {f : File} {rc : ℤ} {e : SysEvent} (h : Checked f rc tr) (he : e ∈ tr) :
    e.1 = .getMagic f := by
  cases h <;>
  · obtain rfl := List.mem_singleton.1 he
    rfl

theorem Opened.initiation {rc : ℤ} (h : Opened l (rc, l') tr) : Initiation l rc l' tr := by
  cases h with
  | failed hu =>
    refine ⟨rfl, rfl, ⟨rfl, rfl, rfl⟩, ?_, ?_, fun hne => absurd hu hne, by simp, by simp⟩
    · exact iff_of_false (by decide) (by simp [Lib.setEnv])
    · simp [Lib.setEnv]
  | first hu hc =>
    refine ⟨rfl, rfl, ⟨rfl, rfl, rfl⟩, ?_, ?_, fun hne => absurd hu hne, fun f b hm => ?_,
      fun used q hm => ?_⟩
    · rw [hc.refused_iff]
      simp [Refused, Lib.setEnv]
    · exact iff_of_true ⟨_, _, List.mem_cons_self⟩ ⟨hu, rfl⟩
    · rcases List.mem_cons.1 hm with hm | hm
      · cases hm
      · cases hc.mem hm
    · rcases List.mem_cons.1 hm with hm | hm
      · cases hm
      · cases hc.mem hm
  | missing hu hf =>
    refine ⟨rfl, rfl, ⟨rfl, rfl, rfl⟩, ?_, ?_, fun _ => rfl, by simp, by simp⟩
    · exact iff_of_false (by decide) (by simp [hf])
    · simp [hf]
  | later hu hf hc =>
    refine ⟨rfl, rfl, ⟨rfl, rfl, rfl⟩, ?_, ?_, fun _ => rfl, fun f b hm => ?_, fun used q hm => ?_⟩
    · rw [hc.refused_iff]
      simp [hf]
    · exact iff_of_false (by rintro ⟨n, acc, hm⟩; cases hc.mem hm) (fun hx => hu hx.1)
    · cases hc.mem hm
    · cases hc.mem hm

theorem Initiated.initiation {rc : ℤ} (h : Initiated l (rc, l') tr) : Initiation l rc l' tr := by
  cases h with
  | stopped h hrc =>
    have hi := h.initiation
    exact ⟨hi.usage, hi.mutex, ⟨hi.list.head, hi.list.links, hi.list.count⟩, hi.ok, hi.opened,
      hi.later, hi.close, hi.malloc⟩
  | failed h hf =>
    have hi := h.initiation
    refine ⟨hi.usage, hi.mutex, ⟨hi.list.head, hi.list.links, hi.list.count⟩, ?_, ?_, hi.later, ?_,
      ?_⟩
    · refine iff_of_false (by decide) fun hx => ?_
      exact hx.2 _ (List.mem_append_right _ (List.mem_singleton_self _)) rfl
    · simpa using hi.opened
    · simpa using hi.close
    · simpa using hi.malloc
  | ready h hf =>
    have hi := h.initiation
    refine ⟨hi.usage, hi.mutex, ⟨hi.list.head, hi.list.links, hi.list.count⟩, ?_, ?_, hi.later, ?_,
      ?_⟩
    · refine iff_of_true rfl ⟨h.fd, fun e he => ?_⟩
      rcases List.mem_append.1 he with he | he
      · exact (hi.ok.1 rfl).2 e he
      · obtain rfl := List.mem_singleton.1 he
        simp [Refused]
    · simpa using hi.opened
    · simpa using hi.close
    · simpa using hi.malloc

/-! ## When an allocation succeeds -/

theorem customInitenv_ready (ho : l.env.usageCount = 1 ∨ l.env.fd.isSome) :
    l.customInitenv.wp succeeds fun r => r.1 = cspiOk := by
  have hcheck : ∀ f, (testDrvmismatch (some f)).wp succeeds fun rc => rc = 0 := fun f => by
    refine ⟨⟨some liberaMagic, rfl⟩, fun magic hm => ?_⟩
    obtain rfl : magic = some liberaMagic := hm
    rfl
  have hbase : l.baseInitenv.wp succeeds fun r => r.1 = 0 ∧ r.2.env.fd.isSome := by
    refine wp_ite.2 ?_
    split
    · refine wp_perform_bind.2 ⟨⟨some 0, rfl⟩, fun fd hfd => ?_⟩
      obtain ⟨n, rfl⟩ := Option.isSome_iff_exists.1 hfd
      exact wp_bind.2 (wp_mono (hcheck _) fun rc hrc => ⟨hrc, rfl⟩)
    · next hu =>
      obtain ⟨f, hf⟩ := Option.isSome_iff_exists.1 (ho.resolve_left hu)
      rw [hf]
      exact wp_bind.2 (wp_mono (hcheck _) fun rc hrc => ⟨hrc, by rw [hf]; rfl⟩)
  refine wp_bind.2 (wp_mono hbase ?_)
  rintro ⟨rc, l'⟩ ⟨hrc, hfd⟩
  obtain rfl : rc = 0 := hrc
  obtain ⟨f, hf⟩ : ∃ f, l'.env.fd = some f := Option.isSome_iff_exists.1 hfd
  simp only [if_true, hf]
  refine wp_perform_bind.2 ⟨⟨some 0, rfl⟩, fun val hval => ?_⟩
  obtain ⟨d, rfl⟩ := Option.isSome_iff_exists.1 hval
  rfl

/-- Without a descriptor a later user is refused. -/
theorem customInitenv_eq (hu : l.env.usageCount ≠ 1) (hf : l.env.fd = none) :
    l.customInitenv = Pure.pure (cspiESystem, { l with dirty := true }) := by
  rw [Lib.customInitenv, Lib.baseInitenv, if_neg hu, hf]
  rfl

/-- The library after the new user was taken back. -/
def Lib.left (l : Lib) : Lib :=
  (l.unlock.locked.setEnv fun e => { e with usageCount := e.usageCount - 1 }).unlock

end LiberaDaq.Cspi
