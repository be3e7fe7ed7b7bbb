import LiberaDaq.Kernel.EventOps
import LiberaDaq.Kernel.Ledger

/-!
# The mutexes in the balanced operations

The file operations of the devices leave the ledger of the mutexes as they found it, but for the
`ioctl()` of the DD and of the PM device, the `read()` of the ADC device and the waits for a trigger
at the event device.
-/

namespace LiberaDaq.Kernel

open LiberaDaq.Interaction Prog

variable {l l₁ : Ledger} {α β : Type} {c : KCall} {d : Device} {q : Queue} {turns : ℕ}

/-! ## The DD, PM and ADC devices -/

theorem even_addTo (f : Field) (x : ℤ) : Even (addTo f x) := fun _ =>
  leads_step rfl fun _ => leads_quiet rfl

theorem even_enableDdInterrupt : Even enableDdInterrupt := fun _ =>
  leads_step rfl fun _ => leads_step rfl fun _ => leads_quiet rfl

theorem even_countReader (x : ℤ) : Even (countReader d x) := fun _ =>
  leads_bind (even_addTo _ _ _) fun _ => even_addTo _ _ _

/-- The device is released, and the operation ends. -/
theorem leads_unlock_pure {m : Mutex} (a : α) : Leads expires (l.take m) l
    (kcall (.mutexUnlock m) >>= fun _ => (Pure.pure a : KProg α)) :=
  leads_bind (leads_unlock mild_expires) fun _ => leads_pure a

theorem even_liberaDdOpen (dev : Bool) (mode : FMode) : Even (liberaDdOpen dev mode) := by
  intro l
  apply Leads.ite (leads_pure _)
  apply leads_bind (leads_lock mild_expires)
  intro _
  apply Leads.ite (leads_unlock_pure _)
  apply leads_bind (even_addTo _ _ _)
  intro _
  apply leads_step rfl
  intro allocated
  apply Leads.ite _ (leads_unlock_pure _)
  apply leads_step rfl
  intro _
  apply leads_step rfl
  intro _
  exact leads_bind (even_addTo _ _ _) fun _ => leads_unlock_pure _

theorem even_openReader (dev : Bool) (mode : FMode) : Even (openReader d dev mode) := by
  intro l
  apply Leads.ite (leads_pure _)
  apply leads_bind (leads_lock mild_expires)
  intro _
  apply Leads.ite (leads_unlock_pure _)
  apply leads_step rfl
  intro master
  have hrest : ∀ _ : Unit, Leads expires (l.take (.sem d)) l (do
      addTo (.readers d) 1
      addTo (.openCount d) 1
      kcall (.mutexUnlock (.sem d))
      Pure.pure (0 : ℤ)) := fun _ =>
    leads_bind (even_addTo _ _ _) fun _ => leads_bind (even_addTo _ _ _) fun _ =>
      leads_unlock_pure _
  exact .ite (leads_step rfl hrest) (hrest ())

theorem even_releaseReader : Even (releaseReader d) := by
  intro l
  apply leads_bind (even_countReader _ _)
  intro _
  apply leads_step rfl
  intro readers
  exact .ite (leads_step rfl fun _ => leads_pure _) (leads_pure _)

theorem even_lmt2mt : Even lmt2mt := fun _ =>
  leads_step rfl fun _ => leads_step rfl fun _ => leads_quiet rfl

theorem even_ofUser (clock : Clock) (time : ℤ) : Even (clock.ofUser time) := by
  intro l
  cases clock with
  | lst => exact leads_pure _
  | lmt => exact leads_step rfl fun _ => leads_pure _

theorem even_seekClock (clock : Clock) (request time : ℤ) :
    Even (seekClock clock request time turns) := by
  intro l
  apply leads_step rfl
  intro _
  apply Leads.ite
  · apply leads_bind (even_liberaGetCTIME _)
    intro out
    apply Leads.ite (leads_pure _)
    apply leads_step rfl
    intro _
    exact .ite (leads_bind (even_lmt2mt _) fun _ => leads_pure _) (leads_pure _)
  · have hrest : ∀ _ : Unit, Leads expires l l (do
        let start ← clock.ofUser time
        kcall (.store clock.start start)
        Pure.pure (0 : ℤ)) := fun _ =>
      leads_bind (even_ofUser _ _ _) fun _ => leads_step rfl fun _ => leads_pure _
    exact .ite (leads_step rfl hrest) (hrest ())

theorem even_liberaDdLlseek (time : ℤ) (whence : ℕ) : Even (liberaDdLlseek time whence turns) := by
  intro l
  unfold liberaDdLlseek
  split
  · exact even_seekClock _ _ _ _
  · exact even_seekClock _ _ _ _
  · exact leads_step rfl fun _ => leads_step rfl fun _ => leads_pure _
  · exact leads_pure _

theorem even_awaitExplicit (clock : Clock) (request : ℤ) (convert : Helper) (ctime : Ctime) :
    Even (awaitExplicit clock request convert ctime turns) := by
  intro l
  apply leads_step rfl
  intro asked
  apply Leads.ite _ (leads_pure _)
  apply leads_bind (even_waitClock _ _ _)
  intro ret
  apply Leads.ite (leads_pure _)
  apply leads_step rfl
  intro ret
  exact .ite (leads_bind (even_lmt2mt _) fun _ => leads_pure _) (leads_pure _)

theorem even_awaitImplicit (ctime : Ctime) : Even (awaitImplicit ctime turns) := by
  intro l
  apply leads_step rfl
  intro asked
  apply Leads.ite _ (leads_pure _)
  apply leads_step rfl
  intro trigger
  apply leads_step rfl
  intro offset
  apply leads_step rfl
  intro d
  apply leads_step rfl
  intro _
  apply leads_step rfl
  intro _
  apply leads_step rfl
  intro ret
  apply Leads.ite (leads_pure _)
  exact leads_bind (even_lmt2mt _) fun _ => even_waitClock _ _ _

theorem even_awaitInterval : Even (awaitInterval turns) := by
  intro l
  apply leads_bind (even_liberaGetCTIME _)
  intro out
  apply Leads.ite (leads_pure _)
  apply leads_bind (even_awaitExplicit _ _ _ _ _)
  intro ret
  apply Leads.ite (leads_pure _)
  apply leads_bind (even_awaitExplicit _ _ _ _ _)
  intro ret
  exact .ite (leads_pure _) (even_awaitImplicit _ _)

theorem even_continueAfter (atoms : ℤ) : Even (continueAfter atoms) := by
  intro l
  apply leads_step rfl
  intro _
  apply leads_step rfl
  intro dec
  apply leads_bind (even_addTo _ _ _)
  intro _
  exact leads_step rfl fun _ => leads_step rfl fun _ => leads_quiet rfl

theorem even_ddReadAtoms (atoms : ℕ) : Even (ddReadAtoms atoms turns) := by
  intro l
  apply leads_bind (even_awaitInterval _)
  intro ret
  apply Leads.ite (leads_pure _)
  apply leads_step rfl
  intro dec
  apply leads_step rfl
  intro ret
  apply Leads.ite (leads_pure _)
  apply leads_bind (even_getBlockedFromFIFO _)
  intro irq
  apply Leads.ite (leads_pure _)
  apply leads_step rfl
  intro ret
  apply Leads.ite
  · exact leads_step rfl fun _ => leads_step rfl fun _ => leads_pure _
  · exact leads_bind (even_continueAfter _ _) fun _ => leads_pure _

theorem even_ddReadLocked (count : ℕ) : Even (ddReadLocked count turns) := by
  intro l
  apply Leads.ite (leads_pure _)
  apply Leads.ite (leads_pure _)
  exact .ite (leads_bind (even_continueAfter _ _) fun _ => leads_pure _) (even_ddReadAtoms _ _)

theorem even_liberaDdRead (count : ℕ) : Even (liberaDdRead count turns) := by
  intro l
  apply leads_interruptible mild_expires (leads_pure _)
  apply leads_bind (even_ddReadLocked _ _)
  intro ret
  exact leads_bind (even_enableDdInterrupt _) fun _ => leads_unlock_pure _

theorem even_liberaPmRead (count : ℕ) : Even (liberaPmRead count) := by
  intro l
  have hlocked : ∀ l, Leads expires l l (pmReadLocked count) := by
    intro l
    apply leads_step rfl
    intro pmsize
    apply Leads.ite (leads_pure _)
    exact .ite (leads_pure _) (leads_step rfl fun _ => leads_pure _)
  apply leads_interruptible mild_expires (leads_pure _)
  exact leads_hold mild_expires (hlocked _) fun _ => leads_pure _

/-! ## The event device -/

theorem even_liberaEventOpen (dev : Bool) (mode : FMode) : Even (liberaEventOpen dev mode) := by
  intro l
  apply Leads.ite (leads_pure _)
  apply leads_bind (leads_lock mild_expires)
  intro _
  apply leads_step rfl
  intro allocated
  apply Leads.ite (leads_unlock_pure _)
  apply leads_step rfl
  intro _
  apply leads_step rfl
  intro _
  apply leads_step rfl
  intro master
  apply Leads.ite (leads_unlock_pure _)
  have hopened : Leads expires (l.take (.sem .event)) l (do
      addTo (.openCount .event) 1
      kcall (.mutexUnlock (.sem .event))
      Pure.pure (0 : ℤ)) := leads_bind (even_addTo _ _ _) fun _ => leads_unlock_pure _
  have hreader : ∀ _ : Unit, Leads expires (l.take (.sem .event)) l (do
      if mode.read then addTo (.readers .event) 1
      addTo (.openCount .event) 1
      kcall (.mutexUnlock (.sem .event))
      Pure.pure (0 : ℤ)) := fun _ => .ite (leads_bind (even_addTo _ _ _) fun _ => hopened) hopened
  apply Leads.ite _ (hreader ())
  apply leads_step rfl
  intro _
  apply leads_step rfl
  intro _
  exact leads_bind (even_addTo _ _ _) hreader

theorem even_dropTriggers (vec own : Vector) : Even (dropTriggers vec own) := fun _ =>
  leads_step rfl fun _ => leads_step rfl fun _ => leads_step rfl fun _ => leads_pure _

theorem even_liberaEventRelease (mode : FMode) : Even (liberaEventRelease mode) := by
  intro l
  have hwriter : ∀ _ : Unit, Leads expires l l (do
      if mode.write then do
        addTo (.writers .event) (-1)
        let writers : ℤ ← kcall (.load (.writers .event))
        if writers = 0 then do
          kcall (.setMaster .event .none)
          kcall (.storeVector .eventMask 0)
          kcall (.flushFifo .events)
      Pure.pure (0 : ℤ)) := by
    intro _
    apply Leads.ite _ (leads_pure _)
    apply leads_bind (even_addTo _ _ _)
    intro _
    apply leads_step rfl
    intro writers
    apply Leads.ite _ (leads_pure _)
    exact leads_step rfl fun _ => leads_step rfl fun _ => leads_step rfl fun _ => leads_pure _
  apply leads_bind (even_addTo _ _ _)
  intro _
  apply Leads.ite _ (hwriter ())
  apply leads_bind (even_addTo _ _ _)
  intro _
  apply Leads.ite _ (hwriter ())
  apply leads_bind (even_dropTriggers _ _ _)
  intro mc
  apply leads_bind (even_dropTriggers _ _ _)
  intro sc
  exact leads_step rfl fun _ => leads_step rfl hwriter

theorem even_copyEvents (i n : ℕ) : Even (copyEvents i n) := by
  intro l
  induction n generalizing i with
  | zero => exact leads_pure _
  | succ n ih =>
    apply leads_step rfl
    intro data
    cases data with
    | none => exact leads_pure _
    | some x => exact leads_step rfl fun _ => .ite (leads_pure _) (ih _)

theorem even_nothingToRead (nonblock : Bool) : Even (nothingToRead nonblock) := fun _ =>
  .ite (leads_quiet rfl) (leads_pure _)

theorem leads_eventReadLocked (nonblock : Bool) (count : ℕ) :
    Leads expires (l.take (.sem .event)) (l.take (.sem .event))
      (eventReadLocked nonblock count turns) := by
  apply leads_bind (even_nothingToRead _ _)
  intro empty
  apply Leads.ite (leads_pure _)
  apply Leads.ite (leads_pure _)
  apply Leads.ite (leads_pure _)
  apply leads_bind leads_waitForFifo
  intro ret
  exact .ite (leads_pure _) (leads_step rfl fun _ => even_copyEvents _ _ _)

theorem even_liberaEventRead (nonblock : Bool) (count : ℕ) :
    Even (liberaEventRead nonblock count turns) := by
  intro l
  apply leads_interruptible mild_expires (leads_pure _)
  exact leads_hold mild_expires (leads_eventReadLocked _ _) fun _ => leads_pure _

/-- The loop for the DD device ends with the device taken or without. -/
theorem leads_tryDdDevice {f : Bool → KProg α} {n : ℕ} (hfree : Leads expires l l₁ (f false))
    (htaken : Leads expires (l.take (.sem .dd)) l₁ (f true)) :
    Leads expires l l₁ (tryDdDevice n >>= f) := by
  induction n with
  | zero => exact hfree
  | succ n ih =>
    change Leads expires l l₁ (kcall .wakeDma >>= fun _ =>
      (mutexTrylock (.sem .dd) >>= fun locked =>
      if locked then Pure.pure true else kcall (.delayInterruptible ddWaitStep) >>= fun _ =>
        tryDdDevice n) >>= f)
    apply leads_step rfl
    intro _
    rw [bind_assoc]
    apply leads_trylock mild_expires
    · exact leads_step rfl fun _ => ih
    · exact htaken

theorem even_acqPmLocked : Even (acqPmLocked turns) := by
  intro l
  apply leads_step rfl
  intro event
  apply leads_step rfl
  intro pmsize
  apply leads_step rfl
  intro offset
  apply leads_step rfl
  intro d
  apply leads_step rfl
  intro _
  apply leads_bind (even_liberaGetCTIME _)
  intro out
  apply Leads.ite (leads_pure _)
  apply leads_bind (even_waitClock _ _ _)
  intro ret
  apply Leads.ite (leads_pure _)
  apply leads_step rfl
  intro dec
  apply leads_step rfl
  intro ret
  apply Leads.ite (leads_pure _)
  apply leads_bind (even_getBlockedFromFIFO _)
  intro irq
  apply Leads.ite (leads_pure _)
  apply leads_step rfl
  intro ret
  apply leads_bind (even_enableDdInterrupt _)
  intro _
  exact .ite (leads_pure _) (.ite (leads_pure _) (leads_pure _))

theorem even_liberaAcqPm : Even (liberaAcqPm turns) := by
  intro l
  apply leads_step rfl
  intro _
  apply leads_tryDdDevice
  · exact leads_step rfl fun _ => leads_pure _
  · apply leads_step rfl
    intro _
    exact leads_hold mild_expires (even_acqPmLocked _) fun _ => leads_pure _

/-! ### Its commands -/

theorem even_flushTriggers (q : ℕ → Queue) (i : ℕ) (bits : List ℕ) :
    Even (flushTriggers q i bits) := by
  intro l
  induction bits generalizing i with
  | nil => exact leads_pure _
  | cons b bits ih => exact leads_step rfl fun _ => ih _

theorem even_enableTrig (vec own : Vector) (q : ℕ → Queue) (mask : Register) (arg : BitVec 32) :
    Even (enableTrig vec own q mask arg) := by
  intro l
  apply Leads.ite (leads_pure _)
  apply leads_step rfl
  intro enabled
  apply Leads.ite (leads_pure _)
  apply leads_step rfl
  intro mine
  apply leads_step rfl
  intro _
  apply leads_bind (even_flushTriggers _ _ _ _)
  intro _
  apply leads_step rfl
  intro mine
  apply Leads.ite (leads_pure _)
  apply leads_step rfl
  intro enabled
  exact leads_step rfl fun _ => leads_step rfl fun _ => leads_pure _

theorem even_setDac (r : Register) (arg : BitVec 32) : Even (setDac r arg) := fun _ =>
  .ite (leads_pure _) (leads_step rfl fun _ => leads_pure _)

theorem even_getCommand (size : ℕ) : Even (getCommand size) := fun _ =>
  leads_step rfl fun _ => leads_pure _

theorem even_setCommand {size : ℕ} {f : ℕ → KProg Unit} (hf : ∀ x, Even (f x)) :
    Even (setCommand size f) := fun _ =>
  leads_step rfl fun x => leads_bind (hf x.2 _) fun _ => leads_pure _

theorem even_store (f : Field) (x : ℤ) : Even (kcall (.store f x)) := fun _ => leads_quiet rfl

theorem even_getTime (size : ℕ) : Even (getTime size turns) := fun _ =>
  leads_bind (even_liberaGetCTIME _) fun _ => even_getCommand _ _

theorem even_setMcpll (x : ℕ) : Even (setMcpll x) := fun _ =>
  leads_step rfl fun _ => leads_step rfl fun _ => leads_step rfl fun _ => leads_step rfl fun _ =>
    leads_pure _

theorem even_setScpll (x : ℕ) : Even (setScpll x) := fun _ =>
  leads_step rfl fun _ => leads_step rfl fun _ => leads_pure _

theorem even_armSettime (f : Field) (time update : ℤ) : Even (armSettime f time update) := fun _ =>
  leads_step rfl fun _ => leads_step rfl fun _ => leads_step rfl fun _ => leads_quiet rfl

theorem even_setMt : Even setMt := by
  intro l
  apply leads_step rfl
  intro x
  apply leads_step rfl
  intro d
  apply Leads.ite (leads_pure _)
  apply leads_bind (even_armSettime _ _ _ _)
  intro _
  exact leads_step rfl fun _ => leads_pure _

theorem even_getFifolen (q : ℕ → Queue) : Even (getFifolen q) := by
  intro l
  apply leads_step rfl
  intro x
  apply Leads.ite (leads_pure _)
  apply Leads.ite (leads_pure _)
  exact leads_step rfl fun _ => even_getCommand _ _

theorem even_asMaster {p : KProg ℤ} (h : Even p) : Even (asMaster p) := fun _ =>
  leads_step rfl fun _ => .ite (leads_pure _) (h _)

end LiberaDaq.Kernel
