import LiberaDaq.Interaction.Invariant
import LiberaDaq.Kernel.EventOps

/-!
# The calls of the waits

The functions that wait for a time or for data, and those that compute where a request continues,
leave the DD device as it is: they neither take nor release it, move no data, and do not touch the
mask of the interrupts.
-/

namespace LiberaDaq.Kernel

open LiberaDaq.Interaction Prog

variable {α β : Type} {p : KProg α} {turns : ℕ}

/-- A call that neither takes nor releases the DD device, moves no data to a user or into the PM
buffer, and does not touch the mask of the interrupts. -/
def isCalm : KCall → Bool
  | .mutexLock m | .mutexLockInterruptible m | .mutexTrylock m | .mutexUnlock m => m ≠ .sem .dd
  | .storeVector v _ => v ≠ .irqMask
  | .writel r _ => r ≠ .sbcIrqMask
  | .lastTrigger trigger => trigger ≠ trigPostMortem
  | .helper (.readObFifo _) | .copyToUser _ => false
  | _ => true

/-- A program that makes only such calls. -/
def Calm (p : KProg α) : Prop := p.Confined (fun c => isCalm c = true) fun _ => True

theorem calm_pure (a : α) : Calm (Pure.pure a) := trivial

theorem calm_kcall {c : KCall} (hc : isCalm c = true) : Calm (kcall c) := ⟨hc, fun _ => trivial⟩

/-- A sequence that begins with such a call. -/
theorem calm_step {c : KCall} (hc : isCalm c = true) {f : KAns c → KProg α}
    (h : ∀ x, Calm (f x)) : Calm (kcall c >>= f) := ⟨hc, h⟩

theorem Calm.bind {f : α → KProg β} (h : Calm p) (hf : ∀ a, Calm (f a)) : Calm (p >>= f) :=
  confined_seq h hf

theorem Calm.ite {c : Prop} [Decidable c] {q : KProg α} (hp : Calm p) (hq : Calm q) :
    Calm (if c then p else q) := by
  split
  · exact hp
  · exact hq

theorem calm_sleepOnFifo {q : Queue} : Calm (sleepOnFifo .event q turns) := by
  induction turns with
  | zero => exact ⟨rfl, fun e => Empty.elim e⟩
  | succ turns ih =>
    apply calm_step rfl
    intro empty
    apply Calm.ite (calm_pure _)
    apply calm_step rfl
    intro pending
    apply Calm.ite _ (calm_pure _)
    exact calm_step rfl fun _ => calm_step rfl fun _ => calm_step rfl fun _ => ih

theorem calm_getBlockedFromFIFO {q : Queue} : Calm (getBlockedFromFIFO q turns) := by
  apply calm_step rfl
  intro interrupted
  apply Calm.ite (calm_pure _)
  have hwait : Calm (waitForFifo .event q turns) :=
    calm_step rfl fun _ => .ite calm_sleepOnFifo (calm_pure _)
  have hlocked : Calm (blockedLocked q turns) := by
    apply hwait.bind
    intro ret
    apply Calm.ite (calm_pure _)
    apply calm_step rfl
    intro data
    cases data with
    | none | some => exact calm_pure _
  exact hlocked.bind fun _ => calm_step rfl fun _ => calm_pure _

theorem calm_liberaGetCTIME : Calm (liberaGetCTIME turns) := by
  apply calm_step rfl
  intro interrupted
  apply Calm.ite (calm_pure _)
  have hlocked : Calm (ctimeLocked turns) := by
    apply calm_step rfl
    intro _
    apply calm_getBlockedFromFIFO.bind
    intro out
    apply Calm.ite (calm_pure _)
    apply calm_step rfl
    intro data
    cases data with
    | none | some => exact calm_pure _
  exact hlocked.bind fun _ => calm_step rfl fun _ => calm_pure _

theorem calm_deltaEnd {clock : Clock} {ctime : Ctime} : Calm (deltaEnd clock ctime) :=
  calm_step (by cases clock <;> rfl) fun _ => calm_step rfl fun _ => calm_pure _

theorem calm_sleepUntil {clock : Clock} {delta : ℤ} : Calm (sleepUntil clock delta turns) := by
  induction turns generalizing delta with
  | zero => exact ⟨rfl, fun e => Empty.elim e⟩
  | succ turns ih =>
    have hjiffies : Calm (clock.jiffies (-delta)) := by
      cases clock with
      | lst => exact calm_pure _
      | lmt => exact calm_step rfl fun _ => calm_pure _
    apply hjiffies.bind
    intro jiffies
    apply calm_step rfl
    intro ret
    apply Calm.ite (calm_pure _)
    apply calm_liberaGetCTIME.bind
    intro out
    apply Calm.ite (calm_pure _)
    exact calm_deltaEnd.bind fun _ => .ite ih (calm_pure _)

theorem calm_waitClock {clock : Clock} {ctime : Ctime} : Calm (waitClock clock ctime turns) := by
  apply calm_step (by cases clock <;> rfl)
  intro start
  apply calm_step rfl
  intro d
  apply Calm.ite (calm_pure _)
  exact .ite (.ite (calm_pure _) calm_sleepUntil) (calm_pure _)

theorem calm_lmt2mt : Calm lmt2mt :=
  calm_step rfl fun _ => calm_step rfl fun _ => calm_kcall rfl

theorem calm_awaitExplicit {clock : Clock} {request : ℤ} {convert : Helper} {ctime : Ctime}
    (hconvert : isCalm (.helper convert) = true) :
    Calm (awaitExplicit clock request convert ctime turns) := by
  apply calm_step rfl
  intro asked
  apply Calm.ite _ (calm_pure _)
  apply calm_waitClock.bind
  intro ret
  apply Calm.ite (calm_pure _)
  apply calm_step hconvert
  intro ret
  exact .ite (calm_lmt2mt.bind fun _ => calm_pure _) (calm_pure _)

theorem calm_awaitImplicit {ctime : Ctime} : Calm (awaitImplicit ctime turns) := by
  apply calm_step rfl
  intro asked
  apply Calm.ite _ (calm_pure _)
  apply calm_step rfl
  intro trigger
  apply calm_step rfl
  intro offset
  apply calm_step rfl
  intro d
  apply calm_step rfl
  intro _
  apply calm_step rfl
  intro _
  apply calm_step rfl
  intro ret
  apply Calm.ite (calm_pure _)
  exact calm_lmt2mt.bind fun _ => calm_waitClock

theorem calm_awaitInterval : Calm (awaitInterval turns) := by
  apply calm_liberaGetCTIME.bind
  intro out
  apply Calm.ite (calm_pure _)
  apply (calm_awaitExplicit rfl).bind
  intro ret
  apply Calm.ite (calm_pure _)
  apply (calm_awaitExplicit rfl).bind
  intro ret
  exact .ite (calm_pure _) calm_awaitImplicit

theorem calm_continueAfter {atoms : ℤ} : Calm (continueAfter atoms) := by
  apply calm_step rfl
  intro _
  apply calm_step rfl
  intro dec
  have hadd : Calm (addTo .userTime (atoms * dec)) :=
    calm_step rfl fun _ => calm_kcall rfl
  apply hadd.bind
  intro _
  exact calm_step rfl fun _ => calm_step rfl fun _ => calm_kcall rfl

theorem calm_ddReadAtoms {atoms : ℕ} : Calm (ddReadAtoms atoms turns) := by
  apply calm_awaitInterval.bind
  intro ret
  apply Calm.ite (calm_pure _)
  apply calm_step rfl
  intro dec
  apply calm_step rfl
  intro ret
  apply Calm.ite (calm_pure _)
  apply calm_getBlockedFromFIFO.bind
  intro irq
  apply Calm.ite (calm_pure _)
  apply calm_step rfl
  intro ret
  apply Calm.ite
  · exact calm_step rfl fun _ => calm_step rfl fun _ => calm_pure _
  · exact calm_continueAfter.bind fun _ => calm_pure _

/-- What `libera_dd_read_specific` does with the device taken. -/
theorem calm_ddReadLocked {count : ℕ} : Calm (ddReadLocked count turns) :=
  .ite (calm_pure _) (.ite (calm_pure _)
    (.ite (calm_continueAfter.bind fun _ => calm_pure _) calm_ddReadAtoms))

end LiberaDaq.Kernel
