import LiberaDaq.Kernel.DeviceOps

/-!
# The ledger of the mutexes

What a run of a driver function did to the mutexes is a `Ledger`: those that the process holds, and
whether it released one that it did not hold. `Leads bad l l' p` says that `p` takes the ledger `l`
to `l'` and makes no call that is `bad`; its rules follow the program. The functions that wait leave
the ledger as they found it.
-/

namespace LiberaDaq.Kernel

open LiberaDaq.Interaction Prog

/-! ## Ledgers -/

/-- The mutexes that the process holds, and whether it released one that it did not hold. -/
structure Ledger where
  held : List Mutex
  wrong : Bool
  deriving DecidableEq

namespace Ledger

/-- Nothing held. -/
def clear : Ledger := ⟨[], false⟩

def take (l : Ledger) (m : Mutex) : Ledger := { l with held := m :: l.held }

def give (l : Ledger) (m : Mutex) : Ledger :=
  if m ∈ l.held then { l with held := l.held.erase m } else { l with wrong := true }

@[simp] theorem give_take {l : Ledger} {m : Mutex} : (l.take m).give m = l := by
  simp [take, give]

/-- What a call does to the ledger. -/
def settle : KEvent → Ledger → Ledger
  | ⟨.mutexLock m, _⟩, l => l.take m
  | ⟨.mutexLockInterruptible m, interrupted⟩, l => if interrupted then l else l.take m
  | ⟨.mutexTrylock m, locked⟩, l => if locked then l.take m else l
  | ⟨.mutexUnlock m, _⟩, l => l.give m
  | _, l => l

end Ledger

/-- The run releases exactly the mutexes that it takes, and none that it does not hold. -/
def Balanced (tr : List KEvent) : Prop :=
  tr.foldl (fun l e => Ledger.settle e l) .clear = .clear

instance (tr : List KEvent) : Decidable (Balanced tr) := inferInstanceAs (Decidable (_ = _))

/-! ## Events of note -/

/-- A sleep is over because its time is. -/
def expires : KEvent → Bool
  | ⟨.scheduleTimeout _, rest⟩ => rest = (0 : ℕ)
  | _ => false

/-- Something could not be copied to the user. -/
def refusesCopy : KEvent → Bool
  | ⟨.copyToUser _, left⟩ => left ≠ (0 : ℕ)
  | _ => false

/-- The process gets a mutex that it asked for interruptibly. -/
def takes (m : Mutex) : KEvent → Bool
  | ⟨.mutexLockInterruptible m', interrupted⟩ => m' = m && !interrupted
  | _ => false

/-! ## Ledgers along a program -/

/-- The account of the mutexes and of the calls that are `bad`. -/
def watchLocks (bad : KEvent → Bool) : Serves KCall KAns (Ledger × Bool) :=
  watch fun e u => (Ledger.settle e u.1, u.2 || bad e)

/-- The program takes the ledger `l` to `l'`, and makes no bad call. -/
def Leads (bad : KEvent → Bool) (l l' : Ledger) {α : Type} (p : KProg α) : Prop :=
  ∀ b, p.wlp (watchLocks bad) (fun _ u => u = (l', b)) (l, b)

section

variable {bad : KEvent → Bool} {l l₁ l₂ : Ledger} {α β : Type} {p q : KProg α} {c : KCall}
  {m : Mutex} {d : Device}

theorem leads_pure (a : α) : Leads bad l l (Pure.pure a : KProg α) := fun _ => rfl

theorem leads_bind {f : α → KProg β} (hp : Leads bad l l₁ p) (hf : ∀ a, Leads bad l₁ l₂ (f a)) :
    Leads bad l l₂ (p >>= f) := by
  intro b
  apply wlp_seq (hp b)
  intro a u hu
  rw [hu]
  exact hf a b

theorem Leads.ite {P : Prop} [Decidable P] (hp : Leads bad l l₁ p) (hq : Leads bad l l₁ q) :
    Leads bad l l₁ (if P then p else q) := by
  split
  · exact hp
  · exact hq

theorem leads_forever : Leads bad l l₁ (forever : KProg α) := fun _ e => Empty.elim e

/-- A call that is neither about a mutex nor bad. -/
def Quiet (bad : KEvent → Bool) (c : KCall) : Prop :=
  ∀ x, (∀ l, Ledger.settle ⟨c, x⟩ l = l) ∧ bad ⟨c, x⟩ = false

theorem leads_call (h : Quiet bad c) : Leads bad l l (kcall c) := by
  intro b x u hu
  rw [show u = (Ledger.settle ⟨c, x⟩ l, b || bad ⟨c, x⟩) from hu, (h x).1, (h x).2, Bool.or_false]
  rfl

/-- A call that is neither about a mutex nor bad comes first. -/
theorem leads_next {f : KAns c → KProg β} (h : Quiet bad c) (hf : ∀ a, Leads bad l l₂ (f a)) :
    Leads bad l l₂ (kcall c >>= f) := leads_bind (leads_call h) hf

/-- The calls to the mutexes are not bad. -/
def Mild (bad : KEvent → Bool) : Prop :=
  (∀ m x, bad ⟨.mutexLock m, x⟩ = false) ∧ (∀ m x, bad ⟨.mutexUnlock m, x⟩ = false) ∧
  (∀ m x, bad ⟨.mutexLockInterruptible m, x⟩ = false) ∧ ∀ m x, bad ⟨.mutexTrylock m, x⟩ = false

theorem leads_lock (hbad : Mild bad) : Leads bad l (l.take m) (kcall (.mutexLock m)) := by
  intro b x u hu
  rw [show u = (l.take m, b || bad ⟨.mutexLock m, x⟩) from hu, hbad.1, Bool.or_false]
  rfl

theorem leads_unlock (hbad : Mild bad) : Leads bad (l.take m) l (kcall (.mutexUnlock m)) := by
  intro b x u hu
  rw [show u = ((l.take m).give m, b || bad ⟨.mutexUnlock m, x⟩) from hu, hbad.2.1, Bool.or_false,
    Ledger.give_take]
  rfl

theorem leads_interruptible (hbad : Mild bad) (hp : Leads bad l l₁ p)
    (hq : Leads bad (l.take m) l₁ q) :
    Leads bad l l₁ (mutexLockInterruptible m >>= fun b => if b then p else q) := by
  intro b x u hu
  rw [show u = (if x then l else l.take m, b || bad ⟨.mutexLockInterruptible m, x⟩) from hu,
    hbad.2.2.1, Bool.or_false]
  cases x with
  | true => exact hp b
  | false => exact hq b

theorem leads_trylock (hbad : Mild bad) {f : Bool → KProg α} (hp : Leads bad l l₁ (f false))
    (hq : Leads bad (l.take m) l₁ (f true)) : Leads bad l l₁ (mutexTrylock m >>= f) := by
  intro b x u hu
  rw [show u = (if x then l.take m else l, b || bad ⟨.mutexTrylock m, x⟩) from hu, hbad.2.2.2,
    Bool.or_false]
  cases x with
  | true => exact hq b
  | false => exact hp b

/-- A mutex that is taken for a while. -/
theorem leads_hold {f : α → KProg β} (hbad : Mild bad)
    (hp : Leads bad (l.take m) (l.take m) p) (hf : ∀ a, Leads bad l l₁ (f a)) :
    Leads bad (l.take m) l₁ (p >>= fun a => kcall (.mutexUnlock m) >>= fun _ => f a) :=
  leads_bind hp fun a => leads_bind (leads_unlock hbad) fun _ => hf a

end

/-! ## The waits -/

/-- The calls that are neither about a mutex nor a sleep with a timeout. -/
def KCall.quiet : KCall → Bool
  | .mutexLock _ | .mutexLockInterruptible _ | .mutexTrylock _ | .mutexUnlock _ => false
  | .scheduleTimeout _ => false
  | _ => true

theorem quiet_expires {c : KCall} (h : c.quiet = true) : Quiet expires c := by
  cases c with
  | mutexLock m | mutexLockInterruptible m | mutexTrylock m | mutexUnlock m => cases h
  | scheduleTimeout t => cases h
  | _ => exact fun _ => ⟨fun _ => rfl, rfl⟩

theorem mild_expires : Mild expires :=
  ⟨fun _ _ => rfl, fun _ _ => rfl, fun _ _ => rfl, fun _ _ => rfl⟩

section

variable {l l₁ : Ledger} {α β : Type} {c : KCall} {d : Device} {q : Queue} {turns : ℕ}

/-- The operation leaves the ledger as it was, and no sleep is over too early. -/
abbrev Even (p : KProg α) : Prop := ∀ l, Leads expires l l p

theorem leads_quiet (h : c.quiet = true) : Leads expires l l (kcall c) :=
  leads_call (quiet_expires h)

theorem leads_step {f : KAns c → KProg β} (h : c.quiet = true)
    (hf : ∀ a, Leads expires l l₁ (f a)) : Leads expires l l₁ (kcall c >>= f) :=
  leads_next (quiet_expires h) hf

theorem leads_sleepOnFifo :
    Leads expires (l.take (.sem d)) (l.take (.sem d)) (sleepOnFifo d q turns) := by
  induction turns with
  | zero => exact leads_forever
  | succ turns ih =>
    apply leads_step rfl
    intro empty
    apply Leads.ite (leads_pure _)
    apply leads_step rfl
    intro pending
    apply Leads.ite _ (leads_pure _)
    apply leads_bind (leads_unlock mild_expires)
    intro _
    apply leads_step rfl
    intro _
    exact leads_bind (leads_lock mild_expires) fun _ => ih

theorem leads_waitForFifo :
    Leads expires (l.take (.sem d)) (l.take (.sem d)) (waitForFifo d q turns) :=
  leads_step rfl fun _ => .ite leads_sleepOnFifo (leads_pure _)

theorem leads_blockedLocked :
    Leads expires (l.take (.sem .event)) (l.take (.sem .event)) (blockedLocked q turns) := by
  apply leads_bind leads_waitForFifo
  intro ret
  apply Leads.ite (leads_pure _)
  apply leads_step rfl
  intro data
  cases data with
  | none => exact leads_pure _
  | some x => exact leads_pure _

theorem even_getBlockedFromFIFO : Even (getBlockedFromFIFO q turns) := by
  intro l
  apply leads_interruptible mild_expires (leads_pure _)
  exact leads_hold mild_expires leads_blockedLocked fun _ => leads_pure _

theorem even_ctimeLocked : Even (ctimeLocked turns) := by
  intro l
  apply leads_step rfl
  intro _
  apply leads_bind (even_getBlockedFromFIFO _)
  intro out
  apply Leads.ite (leads_pure _)
  apply leads_step rfl
  intro data
  cases data with
  | none => exact leads_pure _
  | some lst => exact leads_pure _

theorem even_liberaGetCTIME : Even (liberaGetCTIME turns) := by
  intro l
  apply leads_interruptible mild_expires (leads_pure _)
  exact leads_hold mild_expires (even_ctimeLocked _) fun _ => leads_pure _

theorem even_jiffies (clock : Clock) (delay : ℤ) : Even (clock.jiffies delay) := by
  intro l
  cases clock with
  | lst => exact leads_pure _
  | lmt => exact leads_step rfl fun _ => leads_pure _

theorem even_deltaEnd (clock : Clock) (ctime : Ctime) : Even (deltaEnd clock ctime) :=
  fun _ => leads_step rfl fun _ => leads_step rfl fun _ => leads_pure _

theorem even_sleepUntil (clock : Clock) (delta : ℤ) : Even (sleepUntil clock delta turns) := by
  intro l
  induction turns generalizing delta with
  | zero => exact leads_forever
  | succ turns ih =>
    apply leads_bind (even_jiffies _ _ _)
    intro jiffies
    apply leads_step rfl
    intro ret
    apply Leads.ite (leads_pure _)
    apply leads_bind (even_liberaGetCTIME _)
    intro out
    apply Leads.ite (leads_pure _)
    apply leads_bind (even_deltaEnd _ _ _)
    intro delta
    exact .ite (ih delta) (leads_pure _)

theorem even_waitClock (clock : Clock) (ctime : Ctime) : Even (waitClock clock ctime turns) := by
  intro l
  apply leads_step rfl
  intro start
  apply leads_step rfl
  intro d
  apply Leads.ite (leads_pure _)
  apply Leads.ite _ (leads_pure _)
  exact .ite (leads_pure _) (even_sleepUntil _ _ _)

end

end LiberaDaq.Kernel
