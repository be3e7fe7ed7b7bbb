import LiberaDaq.Kernel.EvenOps

/-!
# The balance of the mutexes in the file operations

A file operation is to release every mutex that it took, and none that it does not hold. All
operations are balanced but for four of their exits (`locks_balanced_iff`): the `ioctl()` of the DD
and of the PM device return with the device taken when the command is unknown, the `read()` of the
ADC device does when an atom cannot be copied to the user, and a trigger that did not come in time
has the event device released twice.
-/

namespace LiberaDaq.Kernel

open LiberaDaq.Interaction Prog

/-! ## File operations -/

/-- The file operations of the DD, PM, ADC and event devices, with their arguments. -/
inductive FileOp
  | ddOpen (dev : Bool) (mode : FMode) | ddRelease | ddRead (count : ℕ)
  | ddLlseek (time : ℤ) (whence : ℕ) | ddIoctl (cmd : Command)
  | pmOpen (dev : Bool) (mode : FMode) | pmRelease | pmRead (count : ℕ) | pmLlseek
  | pmIoctl (cmd : Command)
  | adcOpen (dev : Bool) (mode : FMode) | adcRelease | adcRead (count : ℕ) | adcLlseek (whence : ℕ)
  | adcIoctl
  | eventOpen (dev : Bool) (mode : FMode) | eventRelease (mode : FMode)
  | eventRead (nonblock : Bool) (count : ℕ) | eventLlseek
  | eventIoctl (cmd : Command) (arg : BitVec 32)

/-- What a file operation does: the `file_operations` of the devices. -/
def FileOp.run (turns : ℕ) : FileOp → KProg ℤ
  | .ddOpen dev mode => liberaDdOpen dev mode
  | .ddRelease => liberaDdRelease
  | .ddRead count => liberaDdRead count turns
  | .ddLlseek time whence => liberaDdLlseek time whence turns
  | .ddIoctl cmd => liberaDdIoctl cmd
  | .pmOpen dev mode => liberaPmOpen dev mode
  | .pmRelease => liberaPmRelease
  | .pmRead count => liberaPmRead count
  | .pmLlseek => liberaLlseek
  | .pmIoctl cmd => liberaPmIoctl cmd
  | .adcOpen dev mode => liberaAdcOpen dev mode
  | .adcRelease => liberaAdcRelease
  | .adcRead count => liberaAdcRead count
  | .adcLlseek whence => liberaAdcLlseek whence
  | .adcIoctl => liberaIoctl
  | .eventOpen dev mode => liberaEventOpen dev mode
  | .eventRelease mode => liberaEventRelease mode
  | .eventRead nonblock count => liberaEventRead nonblock count turns
  | .eventLlseek => liberaLlseek
  | .eventIoctl cmd arg => liberaEventIoctl cmd arg turns

/-! ## What goes wrong -/

/-- The commands that the DD and the PM device know. -/
def ddCommands : List Command := [liberaIocGetDec, liberaIocSetDec, liberaIocGetDdTstamp]

def pmCommands : List Command := [liberaIocGetPmTstamp]

/-- What must not happen in a run of the operation: a DD or PM device that is taken for a command it
does not know, an atom of the ADC that cannot be copied, or a trigger that does not come in time. -/
def FileOp.spoils : FileOp → KEvent → Bool
  | .ddIoctl cmd, e => !ddCommands.contains cmd && takes (.sem .dd) e
  | .pmIoctl cmd, e => !pmCommands.contains cmd && takes (.sem .pm) e
  | .adcRead _, e => refusesCopy e
  | _, e => expires e
variable {l : Ledger} {α : Type} {q : Queue} {turns : ℕ}

/-! ## The waits for a trigger -/

/-- At the end the mutexes are balanced exactly if no bad call was made. -/
def Squared (u : Ledger × Bool) : Prop := u.1 = .clear ↔ u.2 = false

/-- From nothing held the program ends settled. -/
abbrev Settles (bad : KEvent → Bool) (p : KProg α) : Prop :=
  p.wlp (watchLocks bad) (fun _ => Squared) (.clear, false)

theorem squared_clear : Squared (.clear, false) := iff_of_true rfl rfl

theorem Leads.settles {bad : KEvent → Bool} {p : KProg α} (h : Leads bad l .clear p) :
    p.wlp (watchLocks bad) (fun _ => Squared) (l, false) := by
  apply wlp_mono (h false)
  intro _ u hu
  rw [hu]
  exact squared_clear

/-- The sleep with a timeout ends with the device taken, or because its time is over. -/
theorem wlp_sleepOnFifoTimeout {timeout : ℕ} : (sleepOnFifoTimeout q timeout turns).wlp
    (watchLocks expires)
      (fun ret u => u = (l.take (.sem .event), false) ∨ (ret ≠ 0 ∧ u = (l, true)))
    (l.take (.sem .event), false) := by
  induction turns generalizing timeout with
  | zero => exact fun e => Empty.elim e
  | succ turns ih =>
    apply wlp_seq (leads_quiet rfl false)
    intro empty u hu
    subst hu
    split
    · exact .inl rfl
    · apply wlp_seq (leads_quiet rfl false)
      intro pending u hu
      subst hu
      split
      · apply wlp_seq (leads_unlock mild_expires false)
        intro _ u hu
        subst hu
        intro rest u hu
        obtain rfl : u = (l, decide (rest = 0)) := hu
        cases rest with
        | zero =>
          have hret : -eAgain ≠ 0 := by decide
          exact .inr ⟨hret, rfl⟩
        | succ rest =>
          apply wlp_seq (leads_lock mild_expires false)
          intro _ u hu
          subst hu
          exact ih
      · exact .inl rfl

theorem even_handOver (ret : ℤ) : Even (handOver q ret) := by
  intro l
  apply Leads.ite (leads_pure _)
  apply leads_step rfl
  intro data
  cases data with
  | none => exact leads_pure _
  | some x => exact leads_step rfl fun _ => leads_pure _

/-- A device that was released in the sleep is released again. -/
theorem settles_getBlockedFromFIFOuser {timeout : ℕ} :
    Settles expires (getBlockedFromFIFOuser q timeout turns) := by
  intro interrupted u hu
  cases interrupted with
  | true =>
    obtain rfl : u = (.clear, false) := hu
    exact squared_clear
  | false =>
    obtain rfl : u = (Ledger.clear.take (.sem .event), false) := hu
    have hwait : (waitForFifoTimeout q timeout turns).wlp (watchLocks expires)
        (fun ret u => u = (Ledger.clear.take (.sem .event), false) ∨ (ret ≠ 0 ∧ u = (.clear, true)))
        (Ledger.clear.take (.sem .event), false) := by
      apply wlp_seq (leads_quiet rfl false)
      intro empty u hu
      subst hu
      split
      · exact wlp_sleepOnFifoTimeout
      · exact .inl rfl
    apply wlp_seq hwait
    intro ret u hu
    rcases hu with hu | ⟨hret, hu⟩
    · subst hu
      apply wlp_seq (even_handOver ret _ false)
      intro ret u hu
      subst hu
      exact (leads_unlock_pure ret).settles
    · subst hu
      have hskip : handOver q ret = Pure.pure ret := if_pos hret
      rw [hskip]
      intro _ u hu
      obtain rfl : u = (Ledger.clear.give (.sem .event), true) := hu
      exact iff_of_false nofun nofun

theorem settles_getTrigger (own : Vector) (q : ℕ → Queue) (x timeout : ℕ) :
    Settles expires (getTrigger own q x timeout turns) := by
  apply wlp_seq (leads_quiet rfl false)
  intro mine u hu
  subst hu
  split
  · exact squared_clear
  · exact settles_getBlockedFromFIFOuser

theorem settles_run (arg : BitVec 32) (c : EventIoctl) : Settles expires (c.run arg turns) := by
  cases c with
  | setDacA | setDacB => exact (even_setDac _ _ _).settles
  | enableScTrig | enableMcTrig => exact (even_enableTrig _ _ _ _ _ _).settles
  | getScTrigger19 | getMcTrigger19 => exact squared_clear
  | getScTrigger10 | getScTrigger9 | getMcTrigger10 | getMcTrigger1 | getMcTrigger0 =>
    exact settles_getTrigger _ _ _ _
  | setScEvent =>
      exact (leads_step rfl fun _ => leads_pure _ : Leads expires .clear .clear _).settles
  | getFlmc | getMcphi | getScphi | getMask => exact (even_getCommand _ _).settles
  | setFlmc =>
    have hset : ∀ x : ℕ, Even (if x = 0 then Pure.pure () else kcall (.store .flmcdHz x)) :=
      fun _ _ => .ite (leads_pure _) (leads_quiet rfl)
    exact (even_setCommand hset _).settles
  | setMcphi => exact (even_setCommand (fun x => even_store .mcphi x) _).settles
  | setScphi => exact (even_setCommand (fun x => even_store .scphi x) _).settles
  | setNco =>
    have hset : ∀ x : ℕ, Even (kcall (.writel .ddcNco (BitVec.ofNat 32 x))) := fun _ _ =>
      leads_quiet rfl
    exact (even_setCommand hset _).settles
  | setMcpll => exact (even_setCommand even_setMcpll _).settles
  | setScpll => exact (even_setCommand even_setScpll _).settles
  | getCtime | getSt | getMt => exact (even_getTime _ _).settles
  | setSt =>
    have hset : ∀ x, Even (do
        let lst ← Clock.lst.ofUser (x % 2 ^ 64 : ℕ)
        armSettime .settimeLst lst settimeSt) := fun _ _ =>
      leads_bind (even_ofUser _ _ _) fun _ => even_armSettime _ _ _ _
    exact (even_setCommand hset _).settles
  | setMt => exact (even_setMt _).settles
  | getTrigTrigger =>
    exact (leads_step rfl fun _ => even_getCommand _ _ : Leads expires .clear .clear _).settles
  | getFifolenSc | getFifolenMc => exact (even_getFifolen _ _).settles
  | setMask =>
    have hset : ∀ x : ℕ, Even (kcall (.storeVector .eventMask (BitVec.ofNat 32 x))) := fun _ _ =>
      leads_quiet rfl
    exact (even_asMaster (even_setCommand hset) _).settles
  | flush => exact (even_asMaster (fun _ => leads_step rfl fun _ => leads_pure _) _).settles
  | acqPm => exact (even_liberaAcqPm _).settles
  | fionread =>
    have hread : Even (do
        let len : ℕ ← kcall (.lenFifo .events)
        kcall (.putUser (len * eventSize))) := fun _ => leads_step rfl fun _ => leads_quiet rfl
    exact (hread _).settles

theorem settles_liberaEventIoctl (cmd : Command) (arg : BitVec 32) :
    Settles expires (liberaEventIoctl cmd arg turns) := by
  have hcmd : Settles expires (liberaEventCmd cmd arg turns) := by
    unfold liberaEventCmd
    split
    · exact squared_clear
    · exact settles_run _ _
  unfold liberaEventIoctl
  split
  · exact squared_clear
  · split
    · apply wlp_seq (leads_quiet rfl false)
      intro ok u hu
      subst hu
      split
      · exact hcmd
      · exact squared_clear
    · exact hcmd
/-! ## The read of the ADC device -/

theorem mild_refusesCopy : Mild refusesCopy :=
  ⟨fun _ _ => rfl, fun _ _ => rfl, fun _ _ => rfl, fun _ _ => rfl⟩

theorem leads_adcFill (n : ℕ) : Leads refusesCopy l l (adcFill n) := by
  induction n with
  | zero => exact leads_pure _
  | succ n ih =>
    apply leads_next fun _ => ⟨fun _ => rfl, rfl⟩
    intro _
    apply leads_next fun _ => ⟨fun _ => rfl, rfl⟩
    intro _
    apply leads_next fun _ => ⟨fun _ => rfl, rfl⟩
    intro op
    exact .ite (leads_pure _) ih

/-- The atoms are all copied unless a copy is refused. -/
theorem wlp_adcCopy (n : ℕ) : (adcCopy n).wlp (watchLocks refusesCopy)
    (fun copied u => u = (l, !copied)) (l, false) := by
  induction n with
  | zero => rfl
  | succ n ih =>
    intro left u hu
    obtain rfl : u = (l, decide (left ≠ (0 : ℕ))) := hu
    cases left with
    | zero => exact ih
    | succ left => rfl

theorem settles_liberaAdcRead (count : ℕ) : Settles refusesCopy (liberaAdcRead count) := by
  have hrelease : ∀ ret : ℤ, (kcall (.mutexUnlock (.sem .adc)) >>= fun _ => Pure.pure ret).wlp
      (watchLocks refusesCopy) (fun _ => Squared)
      (Ledger.clear.take (.sem .adc), false) := fun ret =>
    (leads_bind (leads_unlock mild_refusesCopy) fun _ => leads_pure ret).settles
  unfold liberaAdcRead
  split
  · exact squared_clear
  · intro interrupted u hu
    cases interrupted with
    | true =>
      obtain rfl : u = (.clear, false) := hu
      exact squared_clear
    | false =>
      obtain rfl : u = (Ledger.clear.take (.sem .adc), false) := hu
      show Prog.wlp _ (if _ then _ else _) _ _
      split
      · exact hrelease _
      · split
        · exact hrelease _
        · apply wlp_seq (leads_adcFill _ false)
          intro filled u hu
          subst hu
          split
          · exact hrelease _
          · apply wlp_seq (wlp_adcCopy _)
            intro copied u hu
            subst hu
            cases copied with
            | true => exact hrelease _
            | false =>
              -- the device stays taken
              exact iff_of_false nofun nofun

/-! ## The ioctl of the DD and of the PM device -/

theorem leads_checkIoctl {bad : KEvent → Bool} (hbad : ∀ n x, bad ⟨.accessOk n, x⟩ = false)
    (group : ℕ) (cmd : Command) : Leads bad l l (checkIoctl group cmd) := by
  apply Leads.ite (leads_pure _)
  apply Leads.ite (leads_pure _)
  apply Leads.ite _ (leads_pure _)
  exact leads_next (fun x => ⟨fun _ => rfl, hbad _ x⟩) fun _ => leads_pure _

theorem mild_never : Mild fun _ => false :=
  ⟨fun _ _ => rfl, fun _ _ => rfl, fun _ _ => rfl, fun _ _ => rfl⟩

theorem quiet_never {c : KCall} (h : c.quiet = true) : Quiet (fun _ => false) c := fun x =>
  ⟨(quiet_expires h x).1, rfl⟩

theorem leads_release {m : Mutex} (ret : ℤ) : Leads (fun _ => false) (Ledger.clear.take m) .clear
    (kcall (.mutexUnlock m) >>= fun _ => Pure.pure ret) :=
  leads_bind (leads_unlock mild_never) fun _ => leads_pure ret

/-- A device that is taken for a command, which gives it back if it is known. -/
theorem settles_takeFor {m : Mutex} {known : Bool} {p : KProg ℤ} {a b : ℤ}
    (hknown : known = true → Leads (fun _ => false) (Ledger.clear.take m) .clear p)
    (hother : known = false → p = Pure.pure b) : Settles (fun e => !known && takes m e)
      (mutexLockInterruptible m >>= fun interrupted => if interrupted then Pure.pure a else p) := by
  cases known with
  | true =>
    exact (leads_interruptible mild_never (leads_pure _) (hknown rfl)).settles
  | false =>
    rw [hother rfl]
    intro interrupted u hu
    cases interrupted with
    | true =>
      obtain rfl : u = (.clear, decide (m = m) && !true) := hu
      rw [Bool.not_true, Bool.and_false]
      exact squared_clear
    | false =>
      obtain rfl : u = (Ledger.clear.take m, decide (m = m) && !false) := hu
      exact iff_of_false nofun (by simp)

theorem settles_liberaDdIoctl (cmd : Command) :
    Settles (FileOp.ddIoctl cmd).spoils (liberaDdIoctl cmd) := by
  apply wlp_seq (leads_checkIoctl (fun _ _ => Bool.and_false _) _ _ false)
  intro err u hu
  subst hu
  split
  · exact squared_clear
  · apply settles_takeFor
    · intro hknown
      split
      · exact leads_next (quiet_never rfl) fun _ => leads_release _
      · next hget =>
        split
        · apply leads_next (quiet_never rfl)
          intro x
          exact .ite (leads_next (quiet_never rfl) fun _ => leads_release _) (leads_release _)
        · next hset =>
          split
          · exact leads_next (quiet_never rfl) fun _ => leads_release _
          · next htstamp => simp [ddCommands, hget, hset, htstamp] at hknown
    · intro hother
      simp only [ddCommands, List.contains_cons, Bool.or_eq_false_iff,
        beq_eq_false_iff_ne] at hother
      rw [if_neg hother.1, if_neg hother.2.1, if_neg hother.2.2.1]

theorem settles_liberaPmIoctl (cmd : Command) :
    Settles (FileOp.pmIoctl cmd).spoils (liberaPmIoctl cmd) := by
  apply wlp_seq (leads_checkIoctl (fun _ _ => Bool.and_false _) _ _ false)
  intro err u hu
  subst hu
  split
  · exact squared_clear
  · have hmaster : Leads (FileOp.pmIoctl cmd).spoils .clear .clear (checkMaster cmd) := by
      apply Leads.ite _ (leads_pure _)
      exact leads_next (fun x => ⟨fun _ => rfl, Bool.and_false _⟩) fun _ => leads_pure _
    apply wlp_seq (hmaster false)
    intro err u hu
    subst hu
    split
    · exact squared_clear
    · apply settles_takeFor
      · intro hknown
        split
        · exact leads_next (quiet_never rfl) fun _ => leads_release _
        · next htstamp => simp [pmCommands, htstamp] at hknown
      · intro hother
        simp only [pmCommands, List.contains_cons, Bool.or_eq_false_iff,
          beq_eq_false_iff_ne] at hother
        exact if_neg hother.1

/-! ## All operations -/

theorem settles_fileOp (turns : ℕ) (op : FileOp) : Settles op.spoils (op.run turns) := by
  cases op with
  | ddOpen dev mode => exact (even_liberaDdOpen dev mode _).settles
  | ddRelease => exact (leads_bind (even_countReader _ _) fun _ => leads_pure _).settles
  | ddRead count => exact (even_liberaDdRead count _).settles
  | ddLlseek time whence => exact (even_liberaDdLlseek time whence _).settles
  | ddIoctl cmd => exact settles_liberaDdIoctl cmd
  | pmOpen dev mode | adcOpen dev mode => exact (even_openReader dev mode _).settles
  | pmRelease | adcRelease => exact (even_releaseReader _).settles
  | pmRead count => exact (even_liberaPmRead count _).settles
  | pmIoctl cmd => exact settles_liberaPmIoctl cmd
  | adcRead count => exact settles_liberaAdcRead count
  | eventOpen dev mode => exact (even_liberaEventOpen dev mode _).settles
  | eventRelease mode => exact (even_liberaEventRelease mode _).settles
  | eventRead nonblock count => exact (even_liberaEventRead nonblock count _).settles
  | eventIoctl cmd arg => exact settles_liberaEventIoctl cmd arg
  | pmLlseek | adcLlseek | adcIoctl | eventLlseek => exact squared_clear

/-- The account of a run. -/
theorem served_watchLocks {bad : KEvent → Bool} (tr : List KEvent) (l : Ledger) (b : Bool) :
    Served (watchLocks bad) tr (l, b)
      (tr.foldl (fun l e => Ledger.settle e l) l, b || tr.any bad) := by
  induction tr generalizing l b with
  | nil => simp [Served]
  | cons e tr ih =>
    have hrest := ih (Ledger.settle e l) (b || bad e)
    rw [Bool.or_assoc] at hrest
    exact ⟨_, rfl, hrest⟩

/-- **Lock balance.** A file operation releases exactly the mutexes that it takes, and none that it
does not hold, iff in its run no DD or PM device is taken for an unknown command, no copy of an atom
of the ADC is refused, and no trigger fails to come in time. -/
theorem locks_balanced_iff {op : FileOp} {turns : ℕ} {tr : List KEvent} {ret : ℤ}
    (h : (op.run turns).Runs tr ret) : Balanced tr ↔ ∀ e ∈ tr, op.spoils e = false := by
  have hsquared : Squared _ :=
    h.of_wlp (served_watchLocks tr .clear false) (settles_fileOp turns op)
  unfold Squared at hsquared
  rw [Bool.false_or, List.any_eq_false] at hsquared
  simpa [Balanced] using hsquared

/-! ### A command that the DD device does not know -/

/-- A command with the type and the group of the DD device that it does not know. -/
def unknownCommand : Command := ioc 0 liberaIocMagic 98 0

/-- The device stays taken. -/
theorem dd_left_locked : ¬∀ (op : FileOp) (turns : ℕ) (tr : List KEvent) (ret : ℤ),
    (op.run turns).Runs tr ret → Balanced tr := by
  intro h
  have hrun : ((FileOp.ddIoctl unknownCommand).run 0).Runs
      [⟨.mutexLockInterruptible (.sem .dd), false⟩] (-eNoTty) := ⟨false, [], rfl, rfl, rfl⟩
  have hbalanced := h _ _ _ _ hrun
  exact absurd hbalanced (by decide)

/-- One atom is read from the PM device. -/
theorem locks_balanced_pmRead : ∃ tr : List KEvent, ((FileOp.pmRead 32).run 0).Runs tr 32 ∧
    tr.length = 4 ∧ (Balanced tr ↔ ∀ e ∈ tr, (FileOp.pmRead 32).spoils e = false) := by
  have hrun : ((FileOp.pmRead 32).run 0).Runs [⟨.mutexLockInterruptible (.sem .pm), false⟩,
      ⟨.load .pmsize, (1000 : ℤ)⟩, ⟨.copyToUser 32, (0 : ℕ)⟩, ⟨.mutexUnlock (.sem .pm), ()⟩] 32 :=
    ⟨false, _, rfl, (1000 : ℤ), _, rfl, (0 : ℕ), _, rfl, (), _, rfl, rfl, rfl⟩
  exact ⟨_, hrun, rfl, locks_balanced_iff hrun⟩

end LiberaDaq.Kernel