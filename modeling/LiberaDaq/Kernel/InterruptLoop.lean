import LiberaDaq.Kernel.CalmCalls
import LiberaDaq.Kernel.ModuleLoad
import Mathlib.Logic.Relation

/-!
# The interrupt handler and the mask of the interrupts

`libera_interrupt` serves the sources of the interrupt until none is left that the mask lets through.
It reads the mask from the copy of the driver, as the register is write only. `libera_dd_handler`
takes the DD source out of both, and who reads from the DD device puts it back. That is done in two
steps, the copy first, and an interrupt in between that finds DD pending takes it out again, before
the register is written. Then the register lets DD through while the copy does not, so that the
handler returns with the line still active (`interrupt_line`).
-/

namespace LiberaDaq.Kernel

open LiberaDaq.Interaction LiberaDaq.Cspi

/-! ## The handler -/

/-- The calls of `libera_interrupt`. The handlers of the sources other than DD are called by their
board specific parts; `putDdIrq` is `putToFIFO` for the queue of the DD interrupts. -/
inductive IrqCall
  | readIrq | readIrq2 | readIlkStatus
  | loadMask | storeMask (x : Word) | writeMask (x : Word)
  | ilkSpecific (status : Word) | sendIlkEvent (status : Word)
  | sc | mc | schelp | mchelp
  | saSpecific | scheduleSa
  | putDdIrq | wakeDd
  | forever
  deriving DecidableEq, Repr

/-- What a call gives back. -/
abbrev IrqAns : IrqCall → Type
  | .readIrq | .readIrq2 | .readIlkStatus | .loadMask => Word
  | .putDdIrq => ℤ
  | .forever => Empty
  | _ => Unit

abbrev IrqProg (α : Type) := Prog IrqCall IrqAns α

abbrev icall (c : IrqCall) : IrqProg (IrqAns c) := Prog.perform c

/-- `irqreturn_t`. -/
inductive IrqReturn
  | none | handled
  deriving DecidableEq, Repr

/-- `LIBERA_INTERRUPT_DD_MASK`. -/
def ddInterrupt : Word := 0x20

/-- `set_irqMask`. -/
def setIrqMask (newMask : Word) : IrqProg Unit := do
  icall (.storeMask newMask)
  icall (.writeMask newMask)

/-- `libera_dd_handler`. That the queue is full is only reported. -/
def liberaDdHandler : IrqProg Unit := do
  let mask ← icall .loadMask
  setIrqMask (mask &&& ~~~ddInterrupt)
  let _ : ℤ ← icall .putDdIrq
  icall .wakeDd

/-- `libera_ilk_handler`. -/
def liberaIlkHandler : IrqProg Unit := do
  let status ← icall .readIlkStatus
  icall (.ilkSpecific status)
  icall (.sendIlkEvent status)

/-- A handler that is called for some bits of a vector. -/
def onBits (v bits : Word) (handler : IrqProg Unit) : IrqProg Unit :=
  if v &&& bits ≠ 0 then handler else pure ()

/-- `libera_scmchelp_handler`. -/
def liberaScmchelpHandler : IrqProg Unit := do
  let status ← icall .readIrq2
  onBits status 0x1 (icall .schelp)
  onBits status 0x100 (icall .mchelp)

/-- `libera_sa_handler`. -/
def liberaSaHandler : IrqProg Unit := do
  icall .saSpecific
  icall .scheduleSa

/-- A turn of the loop of `libera_interrupt`. SC comes before MC. -/
def serveVector (v : Word) : IrqProg Unit := do
  onBits v 0x100 liberaIlkHandler
  onBits v 0x2 (icall .sc)
  onBits v 0x8 (icall .mc)
  onBits v (0x4 ||| 0x10) liberaScmchelpHandler
  onBits v ddInterrupt liberaDdHandler
  onBits v 0x40 liberaSaHandler

/-- The loop of `libera_interrupt`, which is left after `turns` turns or not at all. -/
def interruptLoop : ℕ → IrqProg Unit
  | 0 => .call .forever fun e => Empty.elim e
  | turns + 1 => do
    let irq ← icall .readIrq
    let mask ← icall .loadMask
    if irq &&& mask ≠ 0 then do
      serveVector (irq &&& mask)
      interruptLoop turns
    else pure ()

/-- `libera_interrupt`, where `own` is `lgbl.irq`. -/
def liberaInterrupt (irq own turns : ℕ) : IrqProg IrqReturn :=
  if irq ≠ own then pure .none
  else do
    interruptLoop turns
    pure .handled

/-! ## The world -/

/-- The mask in the copy of the driver and in `SBC_IRQ_MASK`, and the sources that the handler found
pending when it last looked. `puts` counts the interrupts that were queued for the DD device, and
`enables` how often DD was put back into the copy. Since it was put back last, `between` says that
the register is still to be written, and `hit` that an interrupt served DD before that. -/
structure MaskWorld where
  mirror : Word
  register : Word
  pending : Word
  puts : ℕ
  enables : ℕ
  between : Bool
  hit : Bool
  deriving DecidableEq

/-- The calls of the handler. The hardware may find any source pending. -/
def irqServe : Serves IrqCall IrqAns MaskWorld
  | .readIrq, x, u, u' => u' = { u with pending := x }
  | .loadMask, x, u, u' => x = u.mirror ∧ u' = u
  | .storeMask x, _, u, u' => u' = { u with mirror := x }
  | .writeMask x, _, u, u' => u' = { u with register := x }
  | .putDdIrq, _, u, u' => u' = { u with puts := u.puts + 1, hit := u.hit || u.between }
  | _, _, u, u' => u' = u

/-- An interrupt was served. -/
def Interrupt (u u' : MaskWorld) : Prop :=
  ∃ irq turns tr, (liberaInterrupt irq irq turns).Runs tr .handled ∧ Prog.Served irqServe tr u u'

/-- Any number of them. -/
abbrev Interrupts : MaskWorld → MaskWorld → Prop := Relation.ReflTransGen Interrupt

/-- What the calls of the file operations do to the mask. -/
def maskAnswer : (c : KCall) → KAns c → MaskWorld → MaskWorld → Prop
  | .loadVector v, x, u, u' => (v = .irqMask → x = u.mirror) ∧ u' = u
  | .storeVector v x, _, u, u' =>
    u' = if v = .irqMask then
      { u with mirror := x, between := true, hit := false, enables := u.enables + 1 } else u
  | .writel r x, _, u, u' =>
    u' = if r = .sbcIrqMask then { u with register := x, between := false } else u
  | _, _, u, u' => u' = u

/-- The same, with interrupts at any moment. -/
def maskServe : Serves KCall KAns MaskWorld :=
  fun c x u u' => ∃ v, Interrupts u v ∧ maskAnswer c x v u'

/-- Who reads from the DD device: `libera_dd_read_specific`, and `libera_acq_pm` for the PM buffer.
They hold the device while they change the mask. -/
inductive DdUser
  | read (count : ℕ) | acqPm
  deriving DecidableEq, Repr

def DdUser.run (turns : ℕ) : DdUser → KProg ℤ
  | .read count => liberaDdRead count turns
  | .acqPm => liberaAcqPm turns

/-- An operation as a move. -/
def ddUserCall (op : DdUser × ℕ) (_ : Unit) : KProg (ℤ × Unit) := do
  let ret ← op.1.run op.2
  pure (ret, ())

/-- The world after the driver was loaded. -/
def MaskWorld.start : MaskWorld := ⟨initInterrupts, initInterrupts, 0, 0, 0, false, false⟩

open Prog

variable {u u' u₁ : MaskWorld} {v bits : Word} {turns : ℕ} {α : Type} {p : KProg α}

/-! ## One interrupt -/

/-- What serving a vector does: nothing, or DD is taken out of the mask and queued. -/
def Handled (u u' : MaskWorld) : Prop :=
  u' = { u with pending := u'.pending } ∨
    u.mirror &&& ddInterrupt ≠ 0 ∧ u' =
      { u with
        pending := u'.pending, mirror := u.mirror &&& ~~~ddInterrupt
        register := u.mirror &&& ~~~ddInterrupt, puts := u.puts + 1, hit := u.hit || u.between }

theorem Handled.refl (u : MaskWorld) : Handled u u := .inl rfl

theorem masked_dd (x : Word) : x &&& ~~~ddInterrupt &&& ddInterrupt = 0 := by
  rw [BitVec.and_assoc, BitVec.and_comm (~~~_), BitVec.and_not_self]
  exact BitVec.and_zero

/-- DD is served at most once: then the mask does not let it through any more. -/
theorem Handled.trans (h : Handled u u₁) (h₁ : Handled u₁ u') : Handled u u' := by
  obtain h | ⟨hdd, h⟩ := h
  · rw [h] at h₁
    exact h₁
  · obtain h₁ | ⟨hdd₁, -⟩ := h₁
    · right
      refine ⟨hdd, ?_⟩
      rw [h₁, h]
    · rw [h] at hdd₁
      exact absurd (masked_dd _) hdd₁

/-- The calls that the mask does not depend on. -/
def IrqCall.plain : IrqCall → Bool
  | .readIrq | .storeMask _ | .writeMask _ | .putDdIrq => false
  | _ => true

/-- A program whose calls leave the mask alone. -/
def Plain (p : IrqProg Unit) : Prop := p.Confined (fun c => c.plain = true) fun _ => True

theorem plain_icall {c : IrqCall} (h : c.plain = true) {f : IrqAns c → IrqProg Unit}
    (hf : ∀ x, Plain (f x)) : Plain (icall c >>= f) := ⟨h, hf⟩

theorem plain_ilk : Plain liberaIlkHandler :=
  plain_icall rfl fun _ => plain_icall rfl fun _ => ⟨rfl, fun _ => trivial⟩

theorem plain_onBits {p : IrqProg Unit} (h : Plain p) : Plain (onBits v bits p) := by
  rw [onBits]
  split
  · exact h
  · trivial

theorem plain_scmchelp : Plain liberaScmchelpHandler :=
  plain_icall rfl fun _ => confined_seq (plain_onBits ⟨rfl, fun _ => trivial⟩) fun _ =>
    plain_onBits ⟨rfl, fun _ => trivial⟩

theorem plain_sa : Plain liberaSaHandler := plain_icall rfl fun _ => ⟨rfl, fun _ => trivial⟩

theorem wlp_onBits_plain {p : IrqProg Unit} (h : Plain p) :
    (onBits v bits p).wlp irqServe (fun _ u' => u' = u) u := by
  refine wlp_mono (wlp_frame (plain_onBits h) ?_) fun _ _ h => h.2
  intro c x w w' hc hx
  cases c
  all_goals first
    | exact hx
    | exact hx.2
    | cases hc

/-- `libera_dd_handler` takes DD out of the mask and queues an interrupt. -/
theorem wlp_liberaDdHandler : liberaDdHandler.wlp irqServe (fun _ u' => u' =
    { u with
      mirror := u.mirror &&& ~~~ddInterrupt, register := u.mirror &&& ~~~ddInterrupt
      puts := u.puts + 1, hit := u.hit || u.between }) u := by
  rintro mask _ ⟨rfl, rfl⟩ _ _ rfl _ _ rfl _ _ rfl _ _ rfl
  rfl

theorem wlp_ddBits (hv : v &&& ddInterrupt ≠ 0 → u.mirror &&& ddInterrupt ≠ 0) :
    (onBits v ddInterrupt liberaDdHandler).wlp irqServe (fun _ u' => Handled u u') u := by
  rw [onBits]
  split
  · next hdd =>
    apply wlp_mono wlp_liberaDdHandler
    rintro _ _ rfl
    exact .inr ⟨hv hdd, rfl⟩
  · exact .refl u

theorem wlp_serveVector (hv : v &&& ddInterrupt ≠ 0 → u.mirror &&& ddInterrupt ≠ 0) :
    (serveVector v).wlp irqServe (fun _ u' => Handled u u') u := by
  apply wlp_seq (wlp_onBits_plain plain_ilk)
  rintro _ _ rfl
  apply wlp_seq (wlp_onBits_plain (p := icall .sc) ⟨rfl, fun _ => trivial⟩)
  rintro _ _ rfl
  apply wlp_seq (wlp_onBits_plain (p := icall .mc) ⟨rfl, fun _ => trivial⟩)
  rintro _ _ rfl
  apply wlp_seq (wlp_onBits_plain plain_scmchelp)
  rintro _ _ rfl
  apply wlp_seq (wlp_ddBits hv)
  intro _ u₂ h₂
  apply wlp_mono (wlp_onBits_plain plain_sa)
  rintro _ _ rfl
  exact h₂

/-- **The loop of the handler.** When it is left, nothing is pending that the copy of the mask lets
through. -/
theorem wlp_interruptLoop : (interruptLoop turns).wlp irqServe
    (fun _ u' => Handled u u' ∧ u'.pending &&& u'.mirror = 0) u := by
  induction turns generalizing u with
  | zero => exact fun e => Empty.elim e
  | succ turns ih =>
    rintro irq _ rfl mask _ ⟨rfl, rfl⟩
    change (if irq &&& u.mirror ≠ 0 then serveVector (irq &&& u.mirror) >>= fun _ =>
      interruptLoop turns else Pure.pure ()).wlp irqServe _ { u with pending := irq }
    split
    · have hv : irq &&& u.mirror &&& ddInterrupt ≠ 0 → u.mirror &&& ddInterrupt ≠ 0 := by
        intro hv hdd
        rw [BitVec.and_assoc, hdd] at hv
        exact hv BitVec.and_zero
      apply wlp_seq (wlp_serveVector (u := { u with pending := irq }) hv)
      intro _ u₁ h₁
      apply wlp_mono ih
      rintro _ u₂ ⟨h₂, hnone⟩
      exact ⟨(Handled.trans (.inl rfl) h₁).trans h₂, hnone⟩
    · next hnone => exact ⟨.inl rfl, not_not.1 hnone⟩

theorem interrupt_handled (h : Interrupt u u') : Handled u u' ∧ u'.pending &&& u'.mirror = 0 := by
  obtain ⟨irq, turns, tr, hr, hs⟩ := h
  apply hr.of_wlp hs (Q := fun _ u' => Handled u u' ∧ u'.pending &&& u'.mirror = 0)
  rw [liberaInterrupt, if_neg (not_not.2 rfl)]
  exact wlp_seq wlp_interruptLoop fun _ _ h => h

/-! ## The mask between two operations -/

/-- The mask with DD, and without. -/
def ddOn : Word := initInterrupts

def ddOff : Word := initInterrupts &&& ~~~ddInterrupt

/-- The copy and the register of the mask. While the register is still to be written it may be
behind; when an interrupt hits that moment, the copy is, once it has been written. -/
inductive MaskState (u : MaskWorld) : Prop
  | same (hb : u.between = false) (hh : u.hit = false) (hr : u.register = u.mirror)
  | lost (hb : u.between = false) (hh : u.hit = true) (hm : u.mirror = ddOff)
      (hr : u.register = ddOn)
  | writing (hb : u.between = true) (hh : u.hit = false) (hm : u.mirror = ddOn)
  | spoilt (hb : u.between = true) (hh : u.hit = true) (hm : u.mirror = ddOff)

/-- Besides, the copy is one of the two masks, and an interrupt is queued for the DD device, or can
be, once for each time that DD was put back, and once more. -/
structure MaskInv (u : MaskWorld) : Prop where
  state : MaskState u
  mirror : u.mirror = ddOn ∨ u.mirror = ddOff
  budget : u.puts + (if u.mirror = ddOn then 1 else 0) ≤ u.enables + 1

/-- The invariant where the register is not to be written. -/
def MaskSteady (u : MaskWorld) : Prop := MaskInv u ∧ u.between = false

theorem ddOff_masked : ddOff &&& ddInterrupt = 0 := masked_dd _

theorem ddOff_ne_ddOn : ddOff ≠ ddOn := by decide

theorem ddOn_masked : ddOn &&& ~~~ddInterrupt = ddOff := rfl

/-- An interrupt keeps the invariant. -/
theorem MaskInv.handled (hu : MaskInv u) (h : Handled u u') :
    MaskInv u' ∧ u'.between = u.between := by
  obtain h | ⟨hdd, h⟩ := h
  · rw [h]
    refine ⟨⟨?_, hu.mirror, hu.budget⟩, rfl⟩
    cases hu.state with
    | same hb hh hr => exact .same hb hh hr
    | lost hb hh hm hr => exact .lost hb hh hm hr
    | writing hb hh hm => exact .writing hb hh hm
    | spoilt hb hh hm => exact .spoilt hb hh hm
  · obtain hm | hm := hu.mirror
    · have hbudget := hu.budget
      rw [if_pos hm] at hbudget
      rw [h, hm, ddOn_masked]
      refine ⟨⟨?_, .inr rfl, ?_⟩, rfl⟩
      · cases hu.state with
        | same hb hh hr => exact .same hb (by simp [hb, hh]) rfl
        | lost hb hh hm' hr => exact absurd (hm'.symm.trans hm) ddOff_ne_ddOn
        | writing hb hh hm' => exact .spoilt hb (by simp [hb]) rfl
        | spoilt hb hh hm' => exact absurd (hm'.symm.trans hm) ddOff_ne_ddOn
      · simpa [ddOff_ne_ddOn] using hbudget
    · rw [hm] at hdd
      exact absurd ddOff_masked hdd

theorem MaskInv.interrupts (hu : MaskInv u) (h : Interrupts u u') :
    MaskInv u' ∧ u'.between = u.between := by
  induction h with
  | refl => exact ⟨hu, rfl⟩
  | tail _ h ih =>
    have hnext := ih.1.handled (interrupt_handled h).1
    exact ⟨hnext.1, hnext.2.trans ih.2⟩

theorem MaskSteady.interrupts (hu : MaskSteady u) (h : Interrupts u u') : MaskSteady u' :=
  ⟨(hu.1.interrupts h).1, (hu.1.interrupts h).2.trans hu.2⟩

/-- DD is put back into the copy: the register is behind. -/
theorem MaskInv.enable (hu : MaskInv u) : MaskInv
    { u with mirror := ddOn, between := true, hit := false, enables := u.enables + 1 } := by
  refine ⟨.writing rfl rfl rfl, .inl rfl, ?_⟩
  have hbudget : u.puts ≤ u.enables + 1 := (Nat.le_add_right _ _).trans hu.budget
  simpa using hbudget

/-- The register is written. -/
theorem MaskInv.write (hu : MaskInv u) (hb : u.between = true) :
    MaskInv { u with register := ddOn, between := false } := by
  refine ⟨?_, hu.mirror, hu.budget⟩
  cases hu.state with
  | same hb' | lost hb' => exact absurd (hb'.symm.trans hb) Bool.false_ne_true
  | writing _ hh hm => exact .same rfl hh hm.symm
  | spoilt _ hh hm => exact .lost rfl hh hm rfl

/-- `enableDdInterrupt` keeps the invariant, whenever it is interrupted. -/
theorem maintains_enableDdInterrupt : Maintains maskServe MaskSteady enableDdInterrupt := by
  rintro u hu mask u₁ ⟨v₁, h₁, hmask, rfl⟩
  obtain ⟨hv₁, hb₁⟩ := hu.interrupts h₁
  have hon : mask ||| 0x20 = ddOn := by
    rw [hmask rfl]
    obtain hm | hm := hv₁.mirror
    all_goals
      rw [hm]
      rfl
  rintro _ u₂ ⟨v₂, h₂, hu₂⟩
  obtain ⟨hv₂, hb₂⟩ := hv₁.interrupts h₂
  simp only [maskAnswer, if_true, hon] at hu₂
  subst hu₂
  rintro _ u₃ ⟨v₃, h₃, hu₃⟩
  obtain ⟨hv₃, hb₃⟩ := hv₂.enable.interrupts h₃
  simp only [maskAnswer, if_true, hon] at hu₃
  subst hu₃
  exact ⟨hv₃.write hb₃, rfl⟩

/-! ## The operations -/

/-- An operation maintains the invariant. -/
abbrev Steadies (p : KProg α) : Prop := Maintains maskServe MaskSteady p

/-- The calls that do not change the mask. -/
def leavesMask : KCall → Bool
  | .storeVector .irqMask _ | .writel .sbcIrqMask _ => false
  | _ => true

theorem leavesMask_of_isCalm {c : KCall} (h : isCalm c = true) : leavesMask c = true := by
  cases c with
  | storeVector v x => cases v with
    | irqMask => cases h
    | _ => rfl
  | writel r x => cases r with
    | sbcIrqMask => cases h
    | _ => rfl
  | _ => rfl

theorem maskAnswer_quiet {c : KCall} {x : KAns c} (hc : leavesMask c = true)
    (h : maskAnswer c x u u') : u' = u := by
  cases c with
  | loadVector => exact h.2
  | storeVector w x =>
    cases w with
    | irqMask => cases hc
    | _ => exact h
  | writel r x =>
    cases r with
    | sbcIrqMask => cases hc
    | _ => exact h
  | _ => exact h

theorem steadies_kcall {c : KCall} (hc : leavesMask c = true) : Steadies (kcall c) := by
  apply maintains_perform
  rintro x u u' hu ⟨v, hv, hx⟩
  rw [maskAnswer_quiet hc hx]
  exact hu.interrupts hv

/-- A sequence that begins with such a call. -/
theorem steadies_step {c : KCall} (hc : leavesMask c = true) {f : KAns c → KProg α}
    (h : ∀ x, Steadies (f x)) : Steadies (kcall c >>= f) := (steadies_kcall hc).bind h

/-- What neither touches the mask nor the DD device. -/
theorem Calm.steadies (h : Calm p) : Steadies p := by
  intro u hu
  apply wlp_mono (wlp_keep h ?_ hu) fun _ _ hv => hv.2
  rintro c x v v' hc ⟨w, hw, hx⟩ hv
  rw [maskAnswer_quiet (leavesMask_of_isCalm hc) hx]
  exact hv.interrupts hw

/-- `libera_dd_read_specific` puts DD back at its end, also when it has read nothing. -/
theorem steadies_liberaDdRead {count : ℕ} : Steadies (liberaDdRead count turns) := by
  apply steadies_step rfl
  intro interrupted
  apply Maintains.ite (maintains_pure _)
  apply calm_ddReadLocked.steadies.bind
  intro ret
  exact maintains_enableDdInterrupt.bind fun _ => steadies_step rfl fun _ => maintains_pure _

theorem steadies_tryDdDevice {n : ℕ} : Steadies (tryDdDevice n) := by
  induction n with
  | zero => exact maintains_pure _
  | succ n ih =>
    apply steadies_step rfl
    intro _
    apply steadies_step rfl
    intro locked
    exact .ite (maintains_pure _) (steadies_step rfl fun _ => ih)

/-- `libera_acq_pm` puts DD back once the atoms were read. -/
theorem steadies_acqPmLocked : Steadies (acqPmLocked turns) := by
  apply steadies_step rfl
  intro event
  apply steadies_step rfl
  intro pmsize
  apply steadies_step rfl
  intro offset
  apply steadies_step rfl
  intro d
  apply steadies_step rfl
  intro _
  apply calm_liberaGetCTIME.steadies.bind
  intro out
  apply Maintains.ite (maintains_pure _)
  apply calm_waitClock.steadies.bind
  intro ret
  apply Maintains.ite (maintains_pure _)
  apply steadies_step rfl
  intro dec
  apply steadies_step rfl
  intro ret
  apply Maintains.ite (maintains_pure _)
  apply calm_getBlockedFromFIFO.steadies.bind
  intro irq
  apply Maintains.ite (maintains_pure _)
  apply steadies_step rfl
  intro ret
  apply maintains_enableDdInterrupt.bind
  intro _
  exact .ite (maintains_pure _) (.ite (maintains_pure _) (maintains_pure _))

theorem steadies_liberaAcqPm : Steadies (liberaAcqPm turns) := by
  apply steadies_step rfl
  intro _
  apply steadies_tryDdDevice.bind
  intro locked
  apply steadies_step rfl
  intro _
  apply Maintains.ite (maintains_pure _)
  apply steadies_acqPmLocked.bind
  intro ret
  exact steadies_step rfl fun _ => maintains_pure _

theorem steadies_run (op : DdUser) : Steadies (op.run turns) := by
  cases op with
  | read count => exact steadies_liberaDdRead
  | acqPm => exact steadies_liberaAcqPm

/-! ## An interrupt that hits -/

/-- DD is pending all the time, and no other source is. -/
def ddHandler : Handler IrqCall IrqAns MaskWorld
  | .readIrq, u => some (ddInterrupt, { u with pending := ddInterrupt })
  | .loadMask, u => some (u.mirror, u)
  | .storeMask x, u => some ((), { u with mirror := x })
  | .writeMask x, u => some ((), { u with register := x })
  | .putDdIrq, u => some (0, { u with puts := u.puts + 1, hit := u.hit || u.between })
  | .wakeDd, u => some ((), u)
  | _, _ => none

theorem ddHandler_serves (c : IrqCall) (u : MaskWorld) (x : IrqAns c) (u' : MaskWorld)
    (h : ddHandler c u = some (x, u')) : irqServe c x u u' := by
  cases c with
  | readIrq | storeMask | writeMask | putDdIrq | wakeDd =>
    obtain ⟨rfl, rfl⟩ := Prod.mk.inj (Option.some.inj h)
    rfl
  | loadMask =>
    obtain ⟨rfl, rfl⟩ := Prod.mk.inj (Option.some.inj h)
    exact ⟨rfl, rfl⟩
  | _ => cases h

/-- DD was put back into the copy after the driver was loaded, and an interrupt serves it then. -/
def hitMoment : MaskWorld := { MaskWorld.start with between := true, enables := 1 }

def afterHit : MaskWorld := ⟨ddOff, ddOff, ddInterrupt, 1, 1, true, true⟩

theorem hitMoment_served : ((liberaInterrupt 0 0 2).exec ddHandler hitMoment).map
    (fun r => (r.1, r.2.1)) = some (.handled, afterHit) := by decide

theorem interrupt_hitMoment : Interrupt hitMoment afterHit := by
  obtain ⟨⟨r, u', tr⟩, he, hr⟩ := Option.map_eq_some_iff.1 hitMoment_served
  obtain ⟨rfl, rfl⟩ := Prod.mk.inj hr
  exact ⟨0, 2, tr, exec_runs he, exec_served ddHandler_serves he⟩

/-- That interrupt comes before the register is written. -/
def hitHandler : Handler KCall KAns MaskWorld
  | .mutexLockInterruptible _, u => some (false, u)
  | .mutexUnlock _, u => some ((), u)
  | .load _, u => some (0, u)
  | .store _ _, u => some ((), u)
  | .loadVector v, u => if v = .irqMask then some (u.mirror, u) else none
  | .storeVector v x, u =>
    if v = .irqMask then
      some ((), { u with mirror := x, between := true, hit := false, enables := u.enables + 1 })
    else none
  | .writel r x, u =>
    if r = .sbcIrqMask ∧ u = hitMoment then
      some ((), { afterHit with register := x, between := false })
    else none
  | _, _ => none

theorem hitHandler_serves (c : KCall) (u : MaskWorld) (x : KAns c) (u' : MaskWorld)
    (h : hitHandler c u = some (x, u')) : maskServe c x u u' := by
  cases c with
  | mutexLockInterruptible | mutexUnlock | load | store =>
    obtain ⟨rfl, rfl⟩ := Prod.mk.inj (Option.some.inj h)
    exact ⟨u, .refl, rfl⟩
  | loadVector v =>
    simp only [hitHandler] at h
    split at h
    · obtain ⟨rfl, rfl⟩ := Prod.mk.inj (Option.some.inj h)
      exact ⟨u, .refl, fun _ => rfl, rfl⟩
    · cases h
  | storeVector v b =>
    simp only [hitHandler] at h
    split at h
    · next hv =>
      obtain ⟨rfl, rfl⟩ := Prod.mk.inj (Option.some.inj h)
      exact ⟨u, .refl, (if_pos hv).symm⟩
    · cases h
  | writel r b =>
    simp only [hitHandler] at h
    split at h
    · next hr =>
      obtain ⟨rfl, rfl⟩ := Prod.mk.inj (Option.some.inj h)
      exact ⟨afterHit, .single (hr.2 ▸ interrupt_hitMoment), (if_pos hr.1).symm⟩
    · cases h
  | _ => cases h

theorem hitRead_leaves : ((ddUserCall (.read 0, 0) ()).exec hitHandler .start).map
    (fun r => r.2.1) = some ⟨ddOff, ddOn, ddInterrupt, 1, 1, false, true⟩ := rfl

/-! ## The line of the interrupt -/

theorem steady_start : MaskSteady .start :=
  ⟨⟨.same rfl rfl rfl, .inl rfl, by simp [MaskWorld.start, ddOn]⟩, rfl⟩

/-- What is pending of the mask with DD, where nothing is of the mask without. -/
theorem pending_ddOn (x : Word) (h : x &&& ddOff = 0) : x &&& ddOn = x &&& ddInterrupt := by
  have hon : ddOn = ddOff ||| ddInterrupt := rfl
  rw [hon, BitVec.and_or_distrib_left, h]
  exact BitVec.zero_or

variable {ms : List (Move (DdUser × ℕ) ℤ (Unit × MaskWorld) KEvent)} {w : Unit × MaskWorld}

/-- **The mask of the interrupts.** However the operations of the DD device are interrupted, the
register holds the same mask as the copy of the driver exactly when no interrupt served DD while it
was being put back. When the handler returns, no source is pending that the register lets through,
unless that happened and DD is. No more interrupts are queued for the DD device than DD was put back,
and one. -/
theorem interrupt_line (h : Joint ddUserCall maskServe Interrupt ((), .start) ms w) :
    (w.2.register = w.2.mirror ↔ w.2.hit = false) ∧ w.2.puts ≤ w.2.enables + 1 ∧
      ∀ u', Interrupt w.2 u' → (u'.pending &&& u'.register = 0 ↔
        ¬(w.2.hit = true ∧ u'.pending &&& ddInterrupt ≠ 0)) := by
  have hw : MaskSteady w.2 := by
    refine (Joint.rule (I := fun w => MaskSteady w.2) (G := fun _ => True) (P := fun _ => True)
      ?_ ?_ h steady_start fun _ _ => trivial).2
    · intro m hm hI _
      refine ⟨trivial, hm.of_wlp (Q := fun _ => MaskSteady) ?_⟩
      exact ((steadies_run m.op.1).bind fun _ => maintains_pure _) _ hI
    · exact fun _ _ _ hI hd => hI.interrupts (.single hd)
  obtain ⟨⟨hstate, hmirror, hbudget⟩, hb⟩ := hw
  refine ⟨?_, (Nat.le_add_right _ _).trans hbudget, ?_⟩
  · cases hstate with
    | same _ hh hr => simp [hr, hh]
    | lost _ hh hm hr => simp [hr, hm, hh, ddOff_ne_ddOn.symm]
    | writing hb' | spoilt hb' => exact absurd (hb.symm.trans hb') Bool.false_ne_true
  · intro u' hi
    obtain ⟨hhandled, hnone⟩ := interrupt_handled hi
    cases hstate with
    | same _ hh hr =>
      have hr' : u'.register = u'.mirror := by
        obtain h | ⟨-, h⟩ := hhandled
        all_goals
          rw [h]
        exact hr
      simp [hr', hnone, hh]
    | lost _ hh hm hr =>
      obtain h | ⟨hdd, -⟩ := hhandled
      · rw [h, hm] at hnone
        have hr' : u'.register = ddOn := by rw [h, hr]
        rw [hr', pending_ddOn _ hnone]
        simp [hh]
      · rw [hm] at hdd
        exact absurd ddOff_masked hdd
    | writing hb' | spoilt hb' => exact absurd (hb.symm.trans hb') Bool.false_ne_true

/-- A read that was hit leaves the line active. -/
theorem interrupt_line_hit : ∃ ms w, Joint ddUserCall maskServe Interrupt ((), .start) ms w ∧
    w.2.hit = true ∧ w.2.register ≠ w.2.mirror := by
  obtain ⟨⟨⟨r, s⟩, u', tr⟩, he, hr⟩ := Option.map_eq_some_iff.1 hitRead_leaves
  have hj : Joint ddUserCall maskServe Interrupt ((), .start) _ (s, u') :=
    Joint.exec hitHandler_serves (Joint.nil _) (.read 0, 0) he
  have hhit : u'.hit = true := congrArg MaskWorld.hit hr
  refine ⟨_, _, hj, hhit, fun hsame => ?_⟩
  exact Bool.false_ne_true (((interrupt_line hj).1.1 hsame).symm.trans hhit)

end LiberaDaq.Kernel
