import LiberaDaq.Interaction.Custody
import Mathlib.Algebra.BigOperators.Group.List.Basic
import Mathlib.Algebra.Order.Group.Multiset
import Mathlib.Tactic.Abel
import LiberaDaq.Kernel.ModuleLoad

/-!
# What the kernel modules hold

What the modules took from the kernel and did not give back is kept in a `Ward`, together with the
mask of the interrupts. Over any sequence of loading and unloading, with any answers of the kernel,
nothing is given back that is not held, no interrupt is unmasked while there is no handler for it,
and what is held is what the modules that are loaded work with and what the others left behind
(`modules_books`): a module that could not be loaded its mapping, and an unloaded one nothing,
unless its mapping is at `0` or its interrupt has a negative number.
-/

namespace LiberaDaq.Kernel

open LiberaDaq.Interaction LiberaDaq.Cspi Prog

/-! ## Resources -/

/-- What the kernel hands out. A mapping is known by its page. -/
inductive Resource
  | mapping (page : Word)
  | region (base range : Word)
  | chrdev (major : ℕ)
  | pages (addr : Word)
  | dma (chan : ℤ)
  | buffer (addr : Word)
  | irq (n : ℤ)
  deriving DecidableEq, Repr

/-- What the calls take and give back. `vfree` ignores `NULL`. -/
def moduleDeeds : Deeds ModuleCall ModuleAns Resource where
  taken
    | ⟨.ioremapNocache _ _, x⟩ => if x = (0 : Word) then none else some (.mapping (x &&& pageMask))
    | ⟨.requestMemRegion base range, x⟩ => if x = true then some (.region base range) else none
    | ⟨.registerChrdev major, x⟩ => if x < (0 : ℤ) then none else some (.chrdev major)
    | ⟨.getFreePages, x⟩ => if x = (0 : Word) then none else some (.pages x)
    | ⟨.pxaRequestDma, x⟩ => if x < (0 : ℤ) then none else some (.dma x)
    | ⟨.vmalloc _, x⟩ => if x = (0 : Word) then none else some (.buffer x)
    | ⟨.requestIrq n, x⟩ => if x = (0 : ℤ) then some (.irq n) else none
    | _ => none
  given
    | ⟨.iounmap addr, _⟩ => some (.mapping addr)
    | ⟨.releaseMemRegion base range, _⟩ => some (.region base range)
    | ⟨.unregisterChrdev major, _⟩ => some (.chrdev major)
    | ⟨.freePages addr, _⟩ => some (.pages addr)
    | ⟨.pxaFreeDma chan, _⟩ => some (.dma chan)
    | ⟨.vfree addr, _⟩ => if addr = 0 then none else some (.buffer addr)
    | ⟨.freeIrq n, _⟩ => some (.irq n)
    | _ => none

/-- A mapping made by a call. -/
def mappingOf : ModuleEvent → Multiset Resource
  | ⟨.ioremapNocache _ _, x⟩ => if x = (0 : Word) then 0 else {.mapping (x &&& pageMask)}
  | _ => 0

/-- The mappings made in a run. -/
def mapped (t : List ModuleEvent) : Multiset Resource := (t.map mappingOf).sum

@[simp] theorem mapped_nil : mapped [] = 0 := rfl

@[simp] theorem mapped_append_singleton (t : List ModuleEvent) (e : ModuleEvent) :
    mapped (t ++ [e]) = mapped t + mappingOf e := by
  simp [mapped]

/-! ## The ward -/

/-- The resource is an interrupt. -/
def Resource.isIrq : Resource → Bool
  | .irq _ => true
  | _ => false

/-- There is a handler for the interrupt. -/
def Hooked (s : Multiset Resource) : Prop := ∃ r ∈ s, r.isIrq = true

instance (s : Multiset Resource) : Decidable (Hooked s) :=
  Multiset.decidableExistsMultiset

/-- What the modules hold, and the mask of the interrupts, with whether there was ever an interrupt
unmasked that had no handler. -/
structure Ward where
  custody : Custody Resource
  irqMask : Word
  exposed : Bool

/-- The mask of the interrupts after a call. -/
def maskAfter : ModuleEvent → Word → Word
  | ⟨.writel .sbcIrqMask x, _⟩, _ => x
  | _, mask => mask

/-- What a call does to the ward. -/
def Ward.settle (e : ModuleEvent) (w : Ward) : Ward :=
  let custody := moduleDeeds.settle e w.custody
  let irqMask := maskAfter e w.irqMask
  ⟨custody, irqMask, w.exposed || !decide (irqMask = 0 ∨ Hooked custody.held)⟩

/-- The kernel, which answers whatever it likes. -/
abbrev watchWard : Serves ModuleCall ModuleAns Ward := watch Ward.settle

/-- Where a run stands: what is held, and the mappings made so far. No interrupt was ever unmasked
without a handler. -/
structure Stand (u : Custody Resource) (n : Multiset Resource) (v : Ward × List ModuleEvent) :
    Prop where
  custody : v.1.custody = u
  mapped : mapped v.2 = n
  exposed : v.1.exposed = false
  masked : v.1.irqMask = 0 ∨ Hooked u.held

section

variable {u : Custody Resource} {n : Multiset Resource} {v : Ward × List ModuleEvent} {α : Type}
  {c : ModuleCall} {k : ModuleAns c → ModuleProg α} {Q : α → Ward × List ModuleEvent → Prop}
  {ret : ℤ} {iobase buf pm : Word} {chan : ℤ}

/-- An event that leaves the interrupts masked, or handled. -/
theorem Stand.event (hv : Stand u n v) (e : ModuleEvent)
    (h : maskAfter e v.1.irqMask = 0 ∨ Hooked (moduleDeeds.settle e u).held) :
    Stand (moduleDeeds.settle e u) (n + mappingOf e) (v.1.settle e, v.2 ++ [e]) where
  custody := congrArg (moduleDeeds.settle e) hv.custody
  mapped := by rw [mapped_append_singleton, hv.mapped]
  exposed := by
    have hdec : decide (maskAfter e v.1.irqMask = 0 ∨
        Hooked (moduleDeeds.settle e v.1.custody).held) = true := by
      rw [hv.custody]
      exact decide_eq_true h
    dsimp only [Ward.settle]
    rw [hv.exposed, hdec]
    rfl
  masked := h

theorem hooked_take {r : Resource} (h : Hooked u.held) : Hooked (u.take r).held := by
  obtain ⟨m, hm, hirq⟩ := h
  exact ⟨m, Multiset.mem_cons_of_mem hm, hirq⟩

theorem hooked_give {r : Resource} (hr : r.isIrq = false) (h : Hooked u.held) :
    Hooked (u.give r).held := by
  obtain ⟨m, hm, hirq⟩ := h
  refine ⟨m, ?_, hirq⟩
  unfold Custody.give
  split
  · refine (Multiset.mem_erase_of_ne ?_).2 hm
    rintro rfl
    rw [hr] at hirq
    cases hirq
  · exact hm

/-- The call changes neither the mask of the interrupts nor their handlers. -/
def ModuleCall.calm : ModuleCall → Bool
  | .writel .sbcIrqMask _ | .freeIrq _ => false
  | _ => true

theorem hooked_settle (hc : c.calm = true) (x : ModuleAns c) (h : Hooked u.held) :
    Hooked (moduleDeeds.settle ⟨c, x⟩ u).held := by
  have hgiven : ∀ r ∈ moduleDeeds.given ⟨c, x⟩, r.isIrq = false := by
    cases c with
    | freeIrq => cases hc
    | vfree addr =>
      intro r hr
      simp only [moduleDeeds] at hr
      split at hr
      · cases hr
      · cases hr; rfl
    | iounmap | releaseMemRegion | unregisterChrdev | freePages | pxaFreeDma =>
      rintro r ⟨⟩
      rfl
    | _ => rintro r ⟨⟩
  unfold Deeds.settle
  cases hg : moduleDeeds.given ⟨c, x⟩ with
  | none =>
    cases moduleDeeds.taken ⟨c, x⟩ with
    | none => exact h
    | some r => exact hooked_take h
  | some r =>
    have hkept := hooked_give (hgiven r hg) h
    cases moduleDeeds.taken ⟨c, x⟩ with
    | none => exact hkept
    | some r' => exact hooked_take hkept

theorem maskAfter_calm (hc : c.calm = true) (x : ModuleAns c) (mask : Word) :
    maskAfter ⟨c, x⟩ mask = mask := by
  cases c with
  | writel r y =>
    cases r with
    | sbcIrqMask => cases hc
    | _ => rfl
  | _ => rfl

/-- A calm call comes first. -/
theorem wlp_calm (hv : Stand u n v) (hc : c.calm = true)
    (hk : ∀ x v', Stand (moduleDeeds.settle ⟨c, x⟩ u) (n + mappingOf ⟨c, x⟩) v' →
      (k x).wlp (record watchWard) Q v') :
    (mcall c >>= k).wlp (record watchWard) Q v := by
  refine wlp_watch_record.2 fun x => hk x _ (hv.event _ ?_)
  rw [maskAfter_calm hc]
  exact hv.masked.imp_right (hooked_settle hc x)

/-- The call is about none of the resources and not about the mask. -/
def ModuleCall.idle : ModuleCall → Bool
  | .checkMemRegion _ _ | .pxaGpioMode _ | .setIrqType _ | .readl _ | .initSpecific | .sspSetup
  | .delayJiffies _ => true
  | .writel r _ => r ≠ .sbcIrqMask
  | _ => false

/-- An idle call comes first. -/
theorem wlp_idle (hv : Stand u n v) (hc : c.idle = true)
    (hk : ∀ x v', Stand u n v' → (k x).wlp (record watchWard) Q v') :
    (mcall c >>= k).wlp (record watchWard) Q v := by
  have hcalm : c.calm = true := by
    cases c with
    | writel r y =>
      cases r with
      | sbcIrqMask => cases hc
      | _ => rfl
    | freeIrq => cases hc
    | _ => rfl
  refine wlp_calm hv hcalm fun x v' h => hk x v' ?_
  have hsame : moduleDeeds.settle ⟨c, x⟩ u = u ∧ mappingOf ⟨c, x⟩ = 0 := by
    cases c with
    | checkMemRegion | pxaGpioMode | setIrqType | readl | writel | initSpecific | sspSetup
    | delayJiffies => exact ⟨rfl, rfl⟩
    | _ => cases hc
  rwa [hsame.1, hsame.2, add_zero] at h

/-! ## The labels -/

/-- The function fails, and what it had taken is given back. -/
def Fails {β : Type} (ret : ℤ) (u : Custody Resource) (n : Multiset Resource) (r : Except ℤ β)
    (v : Ward × List ModuleEvent) : Prop := r = .error ret ∧ Stand u n v

theorem errChrDev_fails (hv : Stand (u.take (.region iobase liberaIorange)) n v) :
    (errChrDev iobase ret).wlp (record watchWard) (Fails ret u n) v := by
  refine wlp_calm hv rfl fun _ v' h => ⟨rfl, ?_⟩
  simpa [Deeds.settle, moduleDeeds, mappingOf] using h

theorem errDmabuf_fails
    (hv : Stand ((u.take (.region iobase liberaIorange)).take (.chrdev liberaMajor)) n v) :
    (errDmabuf iobase ret).wlp (record watchWard) (Fails ret u n) v := by
  refine wlp_calm hv rfl fun _ v' h => errChrDev_fails ?_
  simpa [Deeds.settle, moduleDeeds, mappingOf] using h

theorem errDmach_fails (hv : Stand (((u.take (.region iobase liberaIorange)).take
      (.chrdev liberaMajor)).take (.pages buf)) n v) :
    (errDmach iobase buf ret).wlp (record watchWard) (Fails ret u n) v := by
  refine wlp_calm hv rfl fun _ v' h => errDmabuf_fails ?_
  simpa [Deeds.settle, moduleDeeds, mappingOf] using h

theorem errPmbuf_fails (hv : Stand ((((u.take (.region iobase liberaIorange)).take
      (.chrdev liberaMajor)).take (.pages buf)).take (.dma chan)) n v) :
    (errPmbuf iobase buf chan ret).wlp (record watchWard) (Fails ret u n) v := by
  refine wlp_calm hv rfl fun _ v' h => errDmach_fails ?_
  simpa [Deeds.settle, moduleDeeds, mappingOf] using h

theorem errIrq_fails (hpm : pm ≠ 0) (hv : Stand (((((u.take (.region iobase liberaIorange)).take
      (.chrdev liberaMajor)).take (.pages buf)).take (.dma chan)).take (.buffer pm)) n v) :
    (errIrq iobase buf chan pm ret).wlp (record watchWard) (Fails ret u n) v := by
  have hpm' : ¬pm = 0#32 := hpm
  refine wlp_calm hv rfl fun _ v' h => errPmbuf_fails ?_
  simpa [Deeds.settle, moduleDeeds, mappingOf, hpm'] using h

/-! ## Loading the driver of the instrument -/

/-- What a loaded driver works with, but for the mapping. -/
def LiberaLoaded.taken (x : LiberaLoaded) (u : Custody Resource) : Custody Resource :=
  (((((u.take (.region x.iobase liberaIorange)).take (.chrdev liberaMajor)).take
    (.pages x.dmaBuf)).take (.dma x.dmaChan)).take (.buffer x.pmBuf)).take (.irq x.irq)

/-- The mapping at an address. -/
def mappingAt (iobase : Word) : Multiset Resource :=
  if iobase = 0 then 0 else {.mapping (iobase &&& pageMask)}

/-- What `libera_exit` takes for granted of what `libera_init` kept. -/
structure LiberaLoaded.Sound (x : LiberaLoaded) : Prop where
  pmBuf : x.pmBuf ≠ 0
  dmaChan : 0 ≤ x.dmaChan

/-- What the part of `libera_init` that hooks the interrupt leaves: nothing of what was taken if it
fails, and the driver `x` if it does not. -/
def HookLeaves (x : LiberaLoaded) (u : Custody Resource) (n : Multiset Resource)
    (r : Except ℤ LiberaLoaded) (v : Ward × List ModuleEvent) : Prop :=
  match r with
  | .error _ => Stand u n v
  | .ok y => y = x ∧ Stand (x.taken u) n v

variable {p : LiberaParams} {x : LiberaLoaded}

theorem hookIrq_leaves (hx : x.Sound) (hv : Stand (((((u.take (.region x.iobase liberaIorange)).take
      (.chrdev liberaMajor)).take (.pages x.dmaBuf)).take (.dma x.dmaChan)).take
      (.buffer x.pmBuf)) n v) :
    (hookIrq p x).wlp (record watchWard)
      (HookLeaves x u n) v := by
  have hmasked := fun e he => hv.event e (.inl he)
  refine wlp_watch_record.2 fun _ => ?_
  refine wlp_idle (hmasked _ rfl) rfl fun _ v₁ h₁ => ?_
  refine wlp_calm h₁ rfl fun rc v₂ h₂ => ?_
  by_cases hrc : rc = (0 : ℤ)
  · have htaken : Stand (x.taken u) n v₂ := by
      simpa [LiberaLoaded.taken, Deeds.settle, moduleDeeds, mappingOf, hrc] using h₂
    have hhooked : Hooked (x.taken u).held := ⟨.irq x.irq, by simp [LiberaLoaded.taken], rfl⟩
    rw [if_neg (not_not.2 hrc)]
    refine wlp_idle htaken rfl fun _ v₃ h₃ => ?_
    refine wlp_watch_record.2 fun _ => ?_
    have h₄ := h₃.event ⟨.writel .sbcIrqMask initInterrupts, ()⟩ (.inr hhooked)
    refine wlp_idle h₄ rfl fun _ v₅ h₅ => ?_
    refine wlp_idle h₅ rfl fun _ v₆ h₆ => ?_
    refine wlp_idle h₆ rfl fun _ v₇ h₇ => ?_
    refine wlp_idle h₇ rfl fun _ v₈ h₈ => ?_
    refine ⟨rfl, ?_⟩
    simpa [Deeds.settle, moduleDeeds, mappingOf] using h₈
  · have hnone : Stand (((((u.take (.region x.iobase liberaIorange)).take
        (.chrdev liberaMajor)).take (.pages x.dmaBuf)).take (.dma x.dmaChan)).take
        (.buffer x.pmBuf)) n v₂ := by
      simpa [Deeds.settle, moduleDeeds, mappingOf, hrc] using h₂
    rw [if_pos hrc]
    refine wlp_mono (errIrq_fails hx.pmBuf hnone) ?_
    rintro _ _ ⟨rfl, hstand⟩
    exact hstand

theorem readGlobal_stands (hv : Stand u n v) :
    (readGlobal p).wlp (record watchWard) (fun _ v' => Stand u n v') v := by
  refine wlp_idle hv rfl fun feature v₁ h₁ => ?_
  have hdec : (readDecimations feature).wlp (record watchWard) (fun _ v' => Stand u n v') v₁ := by
    unfold readDecimations
    split
    · exact wlp_idle h₁ rfl fun dfa v₂ h₂ => wlp_idle h₂ rfl fun d v₃ h₃ => h₃
    · exact h₁
  exact wlp_seq hdec fun _ _ h => h

/-- What `libera_init` leaves: a mapping at most if it fails, everything that the driver works with
if it does not. -/
def LiberaLeaves (u : Custody Resource) (r : Except ℤ LiberaLoaded) (v : Ward × List ModuleEvent) :
    Prop :=
  match r with
  | .error _ => ∃ m, Stand (u.add m) m v
  | .ok x => Stand (x.taken (u.add (mappingAt x.iobase))) (mappingAt x.iobase) v ∧ x.Sound

theorem Fails.liberaLeaves {m : Multiset Resource} {r : Except ℤ LiberaLoaded}
    (h : Fails ret (u.add m) m r v) : LiberaLeaves u r v := by
  obtain ⟨rfl, hstand⟩ := h
  exact ⟨m, hstand⟩

theorem initBuffers_leaves {global : Global} {dcic : Word}
    (hv : Stand (((u.add (mappingAt iobase)).take (.region iobase liberaIorange)).take
      (.chrdev liberaMajor)) (mappingAt iobase) v) :
    (initBuffers p iobase global dcic).wlp (record watchWard) (LiberaLeaves u) v := by
  refine wlp_calm hv rfl fun buf v₁ h₁ => ?_
  by_cases hbuf : buf = (0 : Word)
  · rw [if_pos hbuf]
    refine wlp_mono (errDmabuf_fails ?_) fun _ _ => Fails.liberaLeaves (m := mappingAt iobase)
    simpa [Deeds.settle, moduleDeeds, mappingOf, hbuf] using h₁
  rw [if_neg hbuf]
  have hbuf' : ¬buf = 0#32 := hbuf
  have hpages : Stand ((((u.add (mappingAt iobase)).take (.region iobase liberaIorange)).take
      (.chrdev liberaMajor)).take (.pages buf)) (mappingAt iobase) v₁ := by
    simpa [Deeds.settle, moduleDeeds, mappingOf, hbuf'] using h₁
  refine wlp_calm hpages rfl fun chan v₂ h₂ => ?_
  by_cases hchan : chan < (0 : ℤ)
  · rw [if_pos hchan]
    refine wlp_mono (errDmach_fails ?_) fun _ _ => Fails.liberaLeaves (m := mappingAt iobase)
    simpa [Deeds.settle, moduleDeeds, mappingOf, hchan] using h₂
  rw [if_neg hchan]
  have hdma : Stand (((((u.add (mappingAt iobase)).take (.region iobase liberaIorange)).take
      (.chrdev liberaMajor)).take (.pages buf)).take (.dma chan)) (mappingAt iobase) v₂ := by
    simpa [Deeds.settle, moduleDeeds, mappingOf, hchan] using h₂
  by_cases hsize : p.pmsize > liberaPmsizeMax
  · rw [if_pos hsize]
    exact wlp_mono (errPmbuf_fails hdma) fun _ _ => Fails.liberaLeaves (m := mappingAt iobase)
  rw [if_neg hsize]
  refine wlp_calm hdma rfl fun pm v₃ h₃ => ?_
  by_cases hpm : pm = (0 : Word)
  · rw [if_pos hpm]
    refine wlp_mono (errPmbuf_fails ?_) fun _ _ => Fails.liberaLeaves (m := mappingAt iobase)
    simpa [Deeds.settle, moduleDeeds, mappingOf, hpm] using h₃
  rw [if_neg hpm]
  have hpm' : ¬pm = 0#32 := hpm
  have hbuffer : Stand ((((((u.add (mappingAt iobase)).take (.region iobase liberaIorange)).take
      (.chrdev liberaMajor)).take (.pages buf)).take (.dma chan)).take (.buffer pm))
      (mappingAt iobase) v₃ := by
    simpa [Deeds.settle, moduleDeeds, mappingOf, hpm'] using h₃
  have hsound : (⟨iobase, global, dcic, buf, chan, pm, p.irqGpio p.gpio⟩ : LiberaLoaded).Sound :=
    ⟨hpm, not_lt.1 hchan⟩
  refine wlp_mono (hookIrq_leaves hsound hbuffer) fun r v' hr => ?_
  cases r with
  | error ret => exact ⟨_, hr⟩
  | ok y =>
    obtain ⟨rfl, hstand⟩ := hr
    exact ⟨hstand, hsound⟩

/-- The registers are mapped. -/
theorem settle_ioremap (base range iobase : Word) :
    moduleDeeds.settle ⟨.ioremapNocache base range, iobase⟩ u = u.add (mappingAt iobase) := by
  unfold mappingAt
  by_cases hzero : iobase = 0
  · rw [if_pos hzero, Custody.add_zero]
    simp [Deeds.settle, moduleDeeds, hzero]
  · rw [if_neg hzero, ← Multiset.cons_zero, Custody.add_cons, Custody.add_zero]
    have hzero' : ¬iobase = 0#32 := hzero
    simp [Deeds.settle, moduleDeeds, hzero']

theorem liberaInit_leaves (hv : Stand u 0 v) :
    (liberaInit p).wlp (record watchWard) (LiberaLeaves u) v := by
  unfold liberaInit
  by_cases hf : p.flmcdHz = 0
  · rw [if_pos hf]
    exact ⟨0, by simpa using hv⟩
  rw [if_neg hf]
  refine wlp_calm hv rfl fun iobase v₁ h₁ => ?_
  have hmap : 0 + mappingOf ⟨.ioremapNocache p.iobase liberaIorange, iobase⟩ = mappingAt iobase :=
    zero_add _
  rw [settle_ioremap, hmap] at h₁
  refine wlp_idle h₁ rfl fun rc v₂ h₂ => ?_
  by_cases hrc : rc < (0 : ℤ)
  · rw [if_pos hrc]
    exact ⟨_, h₂⟩
  rw [if_neg hrc]
  refine wlp_calm h₂ rfl fun region v₃ h₃ => ?_
  cases region with
  | false => exact ⟨_, by simpa [Deeds.settle, moduleDeeds, mappingOf] using h₃⟩
  | true =>
    refine wlp_calm h₃ rfl fun rc v₄ h₄ => ?_
    by_cases hrc : rc < (0 : ℤ)
    · rw [if_pos hrc]
      refine wlp_mono (errChrDev_fails ?_) fun _ _ => Fails.liberaLeaves (m := mappingAt iobase)
      simpa [Deeds.settle, moduleDeeds, mappingOf, hrc] using h₄
    rw [if_neg hrc]
    have hdev : Stand (((u.add (mappingAt iobase)).take (.region iobase liberaIorange)).take
        (.chrdev liberaMajor)) (mappingAt iobase) v₄ := by
      simpa [Deeds.settle, moduleDeeds, mappingOf, hrc] using h₄
    refine wlp_seq (readGlobal_stands hdev) ?_
    rintro ⟨global, dcic⟩ v₅ h₅
    exact initBuffers_leaves h₅

/-! ## Unloading the driver of the instrument -/

/-- The registers, as `releaseIo` gives them back, or does not. -/
def ioLeft (iobase range : Word) : Multiset Resource :=
  if iobase = 0 then {.region iobase range} else 0

theorem releaseIo_stands {range : Word}
    (hv : Stand ((u.add (mappingAt iobase)).take (.region iobase range)) n v) :
    (releaseIo iobase range).wlp (record watchWard)
      (fun _ v' => Stand (u.add (ioLeft iobase range)) n v') v := by
  unfold releaseIo
  by_cases hzero : iobase = 0
  · rw [if_neg (not_not.2 hzero)]
    unfold mappingAt at hv
    unfold ioLeft
    rw [if_pos hzero] at hv ⊢
    rwa [Custody.add_zero, ← Custody.add_zero (u := u), ← Custody.add_cons] at hv
  · rw [if_pos hzero]
    refine wlp_calm hv rfl fun _ v₁ h₁ => ?_
    have hmap : Stand (u.take (.mapping (iobase &&& pageMask))) n v₁ := by
      have htake : u.add (mappingAt iobase) = u.take (.mapping (iobase &&& pageMask)) := by
        rw [mappingAt, if_neg hzero, ← Multiset.cons_zero, Custody.add_cons, Custody.add_zero]
      rw [htake] at h₁
      simpa [Deeds.settle, moduleDeeds, mappingOf] using h₁
    unfold ioLeft
    rw [if_neg hzero, Custody.add_zero]
    refine wlp_calm hmap rfl fun _ v₂ h₂ => ?_
    simpa [Deeds.settle, moduleDeeds, mappingOf] using h₂

/-- The interrupt, as `unhookIrq` gives it back, or does not. -/
def irqLeft (irq : ℤ) : Multiset Resource := if irq < 0 then {.irq irq} else 0

theorem unhookIrq_stands {irq : ℤ} (hv : Stand (u.take (.irq irq)) n v) :
    (unhookIrq irq).wlp (record watchWard) (fun _ v' => Stand (u.add (irqLeft irq)) n v') v := by
  unfold unhookIrq irqLeft
  by_cases hirq : irq < 0
  · rw [if_pos hirq, if_neg (not_le.2 hirq)]
    rwa [← Custody.add_zero (u := u), ← Custody.add_cons] at hv
  · rw [if_neg hirq, if_pos (not_lt.1 hirq), Custody.add_zero]
    -- the interrupts are masked first, so that none is left without a handler
    have hlast := (((hv.event ⟨.writel .sbcIrqMask 0, ()⟩ (.inl rfl)).event
      ⟨.writel .tScTriggerMask 0, ()⟩ (.inl rfl)).event
      ⟨.writel .tMcTriggerMask 0, ()⟩ (.inl rfl)).event ⟨.freeIrq irq, ()⟩ (.inl rfl)
    refine wlp_watch_record.2 fun _ => wlp_watch_record.2 fun _ => wlp_watch_record.2 fun _ => ?_
    refine wlp_watch_record.2 fun _ => ?_
    simpa [Deeds.settle, moduleDeeds, mappingOf] using hlast

/-- What an unloaded driver leaves behind. -/
def LiberaLoaded.left (x : LiberaLoaded) : Multiset Resource :=
  ioLeft x.iobase liberaIorange + irqLeft x.irq

theorem freeChannel_stands (hchan : 0 ≤ chan) (hv : Stand (u.take (.dma chan)) n v) :
    (freeChannel chan).wlp (record watchWard) (fun _ v' => Stand u n v') v := by
  unfold freeChannel
  rw [if_pos hchan]
  refine wlp_calm (k := Pure.pure) hv rfl fun _ v₁ h₁ => ?_
  simpa [Deeds.settle, moduleDeeds, mappingOf] using h₁

theorem liberaExit_stands (hx : x.Sound) (hv : Stand (x.taken (u.add (mappingAt x.iobase))) n v) :
    (liberaExit x).wlp (record watchWard) (fun _ v' => Stand (u.add x.left) n v') v := by
  have hadd : ∀ (w : Custody Resource) (r : Resource),
      (w.take r).add (irqLeft x.irq) = (w.add (irqLeft x.irq)).take r := fun _ _ => Custody.take_add
  refine wlp_seq (unhookIrq_stands hv) fun _ v₁ h₁ => ?_
  simp only [hadd] at h₁
  have hpm : ¬x.pmBuf = 0#32 := hx.pmBuf
  refine wlp_calm h₁ rfl fun _ v₂ h₂ => ?_
  have hdma : Stand (((((((u.add (mappingAt x.iobase)).add (irqLeft x.irq)).take
      (.region x.iobase liberaIorange)).take (.chrdev liberaMajor)).take (.pages x.dmaBuf)).take
      (.dma x.dmaChan))) n v₂ := by
    simpa [Deeds.settle, moduleDeeds, mappingOf, hpm] using h₂
  refine wlp_seq (freeChannel_stands hx.dmaChan hdma) fun _ v₃ h₃ => ?_
  refine wlp_calm h₃ rfl fun _ v₄ h₄ => ?_
  refine wlp_calm h₄ rfl fun _ v₅ h₅ => ?_
  have hregion : Stand (((u.add (irqLeft x.irq)).add (mappingAt x.iobase)).take
      (.region x.iobase liberaIorange)) n v₅ := by
    have hcomm : (u.add (mappingAt x.iobase)).add (irqLeft x.irq) =
        (u.add (irqLeft x.irq)).add (mappingAt x.iobase) := by
      simp only [Custody.add, add_right_comm]
    rw [← hcomm]
    simpa [Deeds.settle, moduleDeeds, mappingOf] using h₅
  refine wlp_mono (releaseIo_stands hregion) fun _ v₆ h₆ => ?_
  have hleft : u.add x.left = (u.add (irqLeft x.irq)).add (ioLeft x.iobase liberaIorange) := by
    rw [LiberaLoaded.left, add_comm]
    simp only [Custody.add, add_assoc]
  rwa [hleft]

/-! ## The driver of the MSP -/

/-- What a loaded driver of the MSP works with, but for the mapping. -/
def mspTaken (iobase : Word) (u : Custody Resource) : Custody Resource :=
  (u.take (.region iobase mspIorange)).take (.chrdev mspMajor)

/-- What `msp_init` leaves. -/
def MspLeaves (u : Custody Resource) (r : Except ℤ Word) (v : Ward × List ModuleEvent) : Prop :=
  match r with
  | .error _ => ∃ m, Stand (u.add m) m v
  | .ok iobase => Stand (mspTaken iobase (u.add (mappingAt iobase))) (mappingAt iobase) v

theorem mspReset_stands {P : Ward × List ModuleEvent → Prop} (hv : Stand u n v)
    (hP : ∀ v', Stand u n v' → P v') : mspReset.wlp (record watchWard) (fun _ v' => P v') v := by
  refine wlp_idle hv rfl fun _ v₁ h₁ => wlp_idle h₁ rfl fun _ v₂ h₂ => ?_
  refine wlp_idle h₂ rfl fun _ v₃ h₃ => wlp_idle h₃ rfl fun _ v₄ h₄ => ?_
  refine wlp_idle h₄ rfl fun _ v₅ h₅ => wlp_idle h₅ rfl fun _ v₆ h₆ => hP v₆ h₆

theorem mspInit_leaves {base : Word} (hv : Stand u 0 v) :
    (mspInit base).wlp (record watchWard) (MspLeaves u) v := by
  refine wlp_calm hv rfl fun iobase v₁ h₁ => ?_
  have hmap : 0 + mappingOf ⟨.ioremapNocache base mspIorange, iobase⟩ = mappingAt iobase :=
    zero_add _
  rw [settle_ioremap, hmap] at h₁
  refine wlp_idle h₁ rfl fun rc v₂ h₂ => ?_
  by_cases hrc : rc < (0 : ℤ)
  · rw [if_pos hrc]
    exact ⟨_, h₂⟩
  rw [if_neg hrc]
  refine wlp_calm h₂ rfl fun region v₃ h₃ => ?_
  cases region with
  | false => exact ⟨_, by simpa [Deeds.settle, moduleDeeds, mappingOf] using h₃⟩
  | true =>
    refine wlp_calm h₃ rfl fun rc v₄ h₄ => ?_
    by_cases hrc : rc < (0 : ℤ)
    · rw [if_pos hrc]
      have hregion : Stand ((u.add (mappingAt iobase)).take (.region iobase mspIorange))
          (mappingAt iobase) v₄ := by
        simpa [Deeds.settle, moduleDeeds, mappingOf, hrc] using h₄
      refine wlp_calm hregion rfl fun _ v₅ h₅ => ⟨mappingAt iobase, ?_⟩
      simpa [Deeds.settle, moduleDeeds, mappingOf] using h₅
    rw [if_neg hrc]
    have hdev : Stand (mspTaken iobase (u.add (mappingAt iobase))) (mappingAt iobase) v₄ := by
      simpa [mspTaken, Deeds.settle, moduleDeeds, mappingOf, hrc] using h₄
    refine wlp_idle hdev rfl fun _ v₅ h₅ => ?_
    exact wlp_seq (mspReset_stands h₅ fun _ h => h) fun _ v₆ h₆ => h₆

theorem mspExit_stands (hv : Stand (mspTaken iobase (u.add (mappingAt iobase))) n v) :
    (mspExit iobase).wlp (record watchWard)
      (fun _ v' => Stand (u.add (ioLeft iobase mspIorange)) n v') v := by
  refine wlp_calm hv rfl fun _ v₁ h₁ => releaseIo_stands ?_
  simpa [mspTaken, Deeds.settle, moduleDeeds, mappingOf] using h₁

end

/-! ## Loading and unloading -/

/-- All that a loaded driver works with. -/
def LiberaLoaded.holdings (x : LiberaLoaded) : Multiset Resource :=
  .irq x.irq ::ₘ .buffer x.pmBuf ::ₘ .dma x.dmaChan ::ₘ .pages x.dmaBuf ::ₘ
    .chrdev liberaMajor ::ₘ .region x.iobase liberaIorange ::ₘ mappingAt x.iobase

/-- All that a loaded driver of the MSP works with. -/
def mspHoldings (iobase : Word) : Multiset Resource :=
  .chrdev mspMajor ::ₘ .region iobase mspIorange ::ₘ mappingAt iobase

/-- What the modules that are loaded work with. -/
def Modules.holdings (s : Modules) : Multiset Resource :=
  s.libera.elim 0 LiberaLoaded.holdings + s.msp.elim 0 mspHoldings

/-- What an operation leaves behind: the mappings that were made for a module that is not loaded
then, and what its exit does not give back for one that was. -/
def ModuleOp.left (op : ModuleOp) (s s' : Modules) (t : List ModuleEvent) : Multiset Resource :=
  match op with
  | .insmodLibera _ => if s'.libera.isSome then 0 else mapped t
  | .rmmodLibera => s.libera.elim 0 LiberaLoaded.left
  | .insmodMsp _ => if s'.msp.isSome then 0 else mapped t
  | .rmmodMsp => s.msp.elim 0 fun iobase => ioLeft iobase mspIorange

/-- A loaded driver is sound. -/
def Modules.Sound (s : Modules) : Prop := ∀ x ∈ s.libera, x.Sound

section

variable {s : Modules} {l : Multiset Resource} {w : Ward}

theorem LiberaLoaded.taken_add (x : LiberaLoaded) (u : Custody Resource) :
    x.taken (u.add (mappingAt x.iobase)) = u.add x.holdings := by
  simp only [LiberaLoaded.taken, LiberaLoaded.holdings, Custody.add_cons]

theorem mspTaken_add (iobase : Word) (u : Custody Resource) :
    mspTaken iobase (u.add (mappingAt iobase)) = u.add (mspHoldings iobase) := by
  simp only [mspTaken, mspHoldings, Custody.add_cons]

theorem Custody.add_add (u : Custody Resource) (m n : Multiset Resource) :
    (u.add m).add n = u.add (m + n) := by
  simp only [Custody.add, add_assoc]

/-- What an operation does: what is held afterwards is what the loaded modules work with, and what
was left behind. -/
theorem Modules.step_books (op : ModuleOp) (hs : s.Sound)
    (hv : Stand (Custody.clear.add (s.holdings + l)) 0 (w, [])) :
    (Modules.step op s).wlp (record watchWard) (fun r v => r.2.Sound ∧
      ∃ n, Stand (Custody.clear.add (r.2.holdings + (l + op.left s r.2 v.2))) n v) (w, []) := by
  obtain ⟨libera, msp⟩ := s
  cases op with
  | insmodLibera p =>
    cases libera with
    | some x => exact ⟨hs, 0, by simpa [ModuleOp.left] using hv⟩
    | none =>
      refine wlp_seq (liberaInit_leaves hv) fun r v hr => ?_
      cases r with
      | error ret =>
        obtain ⟨m, hm⟩ := hr
        refine ⟨hs, m, ?_⟩
        rw [Custody.add_add] at hm
        simpa [ModuleOp.left, hm.mapped, add_assoc] using hm
      | ok x =>
        obtain ⟨hstand, hsound⟩ := hr
        refine ⟨fun y hy => ?_, mappingAt x.iobase, ?_⟩
        · obtain rfl := Option.some.inj hy
          exact hsound
        · rw [LiberaLoaded.taken_add, Custody.add_add] at hstand
          convert hstand using 2
          simp only [Modules.holdings, ModuleOp.left, Option.elim, Option.isSome, if_true]
          abel
  | rmmodLibera =>
    cases libera with
    | none => exact ⟨hs, 0, by simpa [ModuleOp.left] using hv⟩
    | some x =>
      have hall : Stand (x.taken ((Custody.clear.add
          (msp.elim 0 mspHoldings + l)).add (mappingAt x.iobase))) 0 (w, []) := by
        rw [LiberaLoaded.taken_add, Custody.add_add]
        convert hv using 2
        simp only [Modules.holdings, Option.elim]
        abel
      refine wlp_seq (liberaExit_stands (hs x rfl) hall) fun _ v h => ?_
      refine ⟨by simp [Modules.Sound], 0, ?_⟩
      rw [Custody.add_add] at h
      simpa [Modules.holdings, ModuleOp.left, add_assoc] using h
  | insmodMsp base =>
    cases msp with
    | some x => exact ⟨hs, 0, by simpa [ModuleOp.left] using hv⟩
    | none =>
      refine wlp_seq (mspInit_leaves hv) fun r v hr => ?_
      cases r with
      | error ret =>
        obtain ⟨m, hm⟩ := hr
        refine ⟨hs, m, ?_⟩
        rw [Custody.add_add] at hm
        simpa [ModuleOp.left, hm.mapped, add_assoc] using hm
      | ok iobase =>
        refine ⟨hs, mappingAt iobase, ?_⟩
        have hstand : Stand _ _ v := hr
        rw [mspTaken_add, Custody.add_add] at hstand
        convert hstand using 2
        simp only [Modules.holdings, ModuleOp.left, Option.elim, Option.isSome, if_true]
        abel
  | rmmodMsp =>
    cases msp with
    | none => exact ⟨hs, 0, by simpa [ModuleOp.left] using hv⟩
    | some iobase =>
      have hall : Stand (mspTaken iobase ((Custody.clear.add
          (libera.elim 0 LiberaLoaded.holdings + l)).add (mappingAt iobase))) 0 (w, []) := by
        rw [mspTaken_add, Custody.add_add]
        convert hv using 2
        simp only [Modules.holdings, Option.elim]
        abel
      refine wlp_seq (mspExit_stands hall) fun _ v h => ⟨hs, 0, ?_⟩
      rw [Custody.add_add] at h
      simpa [Modules.holdings, ModuleOp.left, add_assoc] using h

/-- Between the operations the driver masks and unmasks interrupts, while it handles them. -/
def Ward.Drift (w w' : Ward) : Prop :=
  w'.custody = w.custody ∧ w'.exposed = w.exposed ∧
    (w'.irqMask = w.irqMask ∨ Hooked w.custody.held)

/-- An operation on the modules, as it was carried out. -/
abbrev ModuleMove := Move ModuleOp ℤ (Modules × Ward) ModuleEvent

/-- What the operations left behind. -/
def leftBehind (ms : List ModuleMove) : Multiset Resource :=
  (ms.map fun m => m.op.left m.before.1 m.after.1 m.events).sum

/-- No module loaded, nothing held, and the interrupts masked. -/
def Ward.boot : Ward := ⟨.clear, 0, false⟩

/-- **The modules' resources.** In any sequence of loading and unloading the two drivers, whatever
the kernel answers, nothing is given back that is not held, what is held is what the loaded modules
work with and what the operations left behind, and no interrupt is unmasked that has no handler. -/
theorem modules_books {ms : List ModuleMove}
    (h : Joint Modules.step watchWard Ward.Drift (⟨none, none⟩, Ward.boot) ms (s, w)) :
    w.custody.wrong = false ∧ w.custody.held = s.holdings + leftBehind ms ∧
      w.exposed = false := by
  let I (ms : List ModuleMove) (v : Modules × Ward) : Prop :=
    v.1.Sound ∧ Stand (Custody.clear.add (v.1.holdings + leftBehind ms)) 0 (v.2, [])
  have hstart : I [] (⟨none, none⟩, Ward.boot) :=
    ⟨by simp [Modules.Sound], by simp [Ward.boot, Modules.holdings, leftBehind], rfl, rfl, .inl rfl⟩
  have hI := (Joint.rule_past (I := I) (P := fun _ _ => True) (fun ms m hm hI => ⟨trivial, ?_⟩)
    (fun ms s u u' hI hd => ?_) h hstart).2
  · obtain ⟨-, hstand⟩ := hI
    refine ⟨?_, ?_, hstand.exposed⟩
    · rw [hstand.custody]
      rfl
    · rw [hstand.custody]
      exact zero_add _
  · obtain ⟨hs, n, hstand⟩ := hm.of_wlp_record (Modules.step_books m.op hI.1 hI.2)
    refine ⟨hs, ?_, rfl, hstand.exposed, ?_⟩
    · rw [hstand.custody]
      simp [leftBehind]
    · simpa [leftBehind, add_assoc] using hstand.masked
  · obtain ⟨hs, hstand⟩ := hI
    obtain ⟨hcustody, hexposed, hmask⟩ := hd
    refine ⟨hs, hcustody.trans hstand.custody, rfl, hexposed.trans hstand.exposed, ?_⟩
    rcases hmask with hmask | hmask
    · rw [hmask]
      exact hstand.masked
    · rw [hstand.custody] at hmask
      exact .inr hmask

/-! ### A life of the modules -/

/-- The kernel that has everything, but where the number of the MSP's device is in use. -/
def spareKernel : Handler ModuleCall ModuleAns Ward := fun c w =>
  let x : ModuleAns c := match c with
    | .ioremapNocache base _ => base
    | .getFreePages | .vmalloc _ => 0x4000
    | .readl _ => 0
    | .checkMemRegion _ _ | .pxaRequestDma | .requestIrq _ => (0 : ℤ)
    | .registerChrdev major => if major = mspMajor then -16 else 0
    | .requestMemRegion _ _ => true
    | .iounmap _ | .releaseMemRegion _ _ | .unregisterChrdev _ | .freePages _ | .pxaFreeDma _
    | .vfree _ | .pxaGpioMode _ | .freeIrq _ | .setIrqType _ | .writel _ _ | .initSpecific
    | .sspSetup | .delayJiffies _ => ()
  some (x, w.settle ⟨c, x⟩)

theorem spareKernel_serves (c : ModuleCall) (w : Ward) (x : ModuleAns c) (w' : Ward)
    (h : spareKernel c w = some (x, w')) : watchWard c x w w' := by
  obtain ⟨rfl, rfl⟩ := Prod.mk.inj (Option.some.inj h)
  rfl

/-- The parameters of an instrument. -/
def spareParams : LiberaParams := ⟨0x10000, 0, fun n => n + 64, 1, 1, 1, 1, 16⟩

/-- The driver is loaded, that of the MSP cannot be, and the driver is unloaded: the mapping of the
MSP is left. -/
theorem modules_books_spare : ∃ ms w, Joint Modules.step watchWard Ward.Drift
      (⟨none, none⟩, Ward.boot) ms w ∧
    ms.map Move.op = [.insmodLibera spareParams, .insmodMsp 0x20000, .rmmodLibera] ∧
    ms.map Move.result = [0, -16, 0] ∧ w.2.custody.wrong = false ∧
    w.2.custody.held = {.mapping 0x20000} ∧ w.2.exposed = false := by
  have hfirst : Joint Modules.step watchWard Ward.Drift (⟨none, none⟩, Ward.boot) _ _ :=
    Joint.exec spareKernel_serves (Joint.nil _) (.insmodLibera spareParams) rfl
  have hsecond := hfirst.exec spareKernel_serves (.insmodMsp 0x20000) rfl
  have hthird := hsecond.exec spareKernel_serves .rmmodLibera rfl
  obtain ⟨hwrong, hheld, hexposed⟩ := modules_books hthird
  exact ⟨_, _, hthird, rfl, rfl, hwrong, hheld.trans (by decide), hexposed⟩

end

end LiberaDaq.Kernel
