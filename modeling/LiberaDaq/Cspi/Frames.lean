import LiberaDaq.Cspi.Calls
import LiberaDaq.Interaction.Environment
import LiberaDaq.Memory.LinkedList

/-!
# What the calls leave alone

Most calls of the library neither allocate nor free a handle. Whatever the system answers, such a
call that returns leaves the counters of the environment, its mutex, its descriptor and the list of
connections as they were (`cspiImpl_sameBooks`).

The first part has the rules for the steps that the functions of the library are made of.
-/

namespace LiberaDaq.Cspi

open LiberaDaq.Interaction LiberaDaq.Memory Prog

variable {α : Type} {l : Lib} {p : ℕ} {ok : (c : SysCall) → SysAns c → Prop}

/-! ## Steps -/

/-- The library with its mutex locked. -/
def Lib.locked (l : Lib) : Lib := l.setEnv fun e => { e with mutex := true }

/-- The library after an assignment through a pointer. -/
def Lib.assigned (l : Lib) (q : Option ℕ) (f : Connection → Connection) : Lib :=
  { l with heap := assignAt l.heap q f }

@[simp] theorem wp_hang {Q : α → Prop} : ¬(hang : LibProg α).wp ok Q := fun h => h.1.elim fun e _ =>
  e.elim

@[simp] theorem wp_fault {Q : α → Prop} : ¬(fault : LibProg α).wp ok Q := fun h =>
  h.1.elim fun e _ => e.elim

@[simp] theorem ensures_hang {Q : α → Prop} : (hang : LibProg α).Ensures Q :=
  ⟨trivial, fun e => e.elim⟩

@[simp] theorem ensures_fault {Q : α → Prop} : (fault : LibProg α).Ensures Q :=
  ⟨trivial, fun e => e.elim⟩

@[simp] theorem wp_lock {Q : Lib → Prop} : l.lock.wp ok Q ↔ l.env.mutex = false ∧ Q l.locked := by
  unfold Lib.lock
  split
  · next h => simp [h]
  · next h =>
    have h : l.env.mutex = false := by simpa using h
    simp [h, Lib.locked]

@[simp] theorem ensures_lock {Q : Lib → Prop} :
    l.lock.Ensures Q ↔ (l.env.mutex = false → Q l.locked) := by
  unfold Lib.lock
  split
  · next h => simp [h]
  · next h =>
    have h : l.env.mutex = false := by simpa using h
    simp [h, Lib.locked]

@[simp] theorem wp_deref {Q : Connection → Prop} :
    (l.deref p).wp ok Q ↔ ∃ c, l.heap p = some c ∧ Q c := by
  unfold Lib.deref
  split
  · next c h => simp [h]
  · next h => simp [h]

@[simp] theorem ensures_deref {Q : Connection → Prop} :
    (l.deref p).Ensures Q ↔ ∀ c, l.heap p = some c → Q c := by
  unfold Lib.deref
  split
  · next c h => simp [h]
  · next h => simp [h]

theorem assignAt_eq_update {c : Connection} (h : l.heap p = some c) (f : Connection → Connection) :
    assignAt l.heap (some p) f = Function.update l.heap p (some (f c)) := by
  funext x
  by_cases hx : x = p
  · subst hx
    rw [assignAt_self, h, Function.update_self, Option.map_some]
  · rw [assignAt_of_ne (by simpa using Ne.symm hx), Function.update_of_ne hx]

@[simp] theorem wp_assign {q : Option ℕ} {f : Connection → Connection} {Q : Lib → Prop} :
    (l.assign q f).wp ok Q ↔ (∀ p, q = some p → (l.heap p).isSome) ∧ Q (l.assigned q f) := by
  cases q with
  | none => simp [Lib.assign, Lib.assigned]
  | some p =>
    simp only [Lib.assign, wp_bind, wp_deref, wp_pure, Option.some.injEq, forall_eq']
    constructor
    · rintro ⟨c, hc, h⟩
      refine ⟨by rw [hc]; rfl, ?_⟩
      rwa [Lib.assigned, assignAt_eq_update hc]
    · rintro ⟨hs, h⟩
      obtain ⟨c, hc⟩ := Option.isSome_iff_exists.1 hs
      refine ⟨c, hc, ?_⟩
      rwa [Lib.assigned, assignAt_eq_update hc] at h

@[simp] theorem ensures_assign {q : Option ℕ} {f : Connection → Connection} {Q : Lib → Prop} :
    (l.assign q f).Ensures Q ↔ ((∀ p, q = some p → (l.heap p).isSome) → Q (l.assigned q f)) := by
  cases q with
  | none => simp [Lib.assign, Lib.assigned]
  | some p =>
    simp only [Lib.assign, confined_bind, ensures_deref, confined_pure, Option.some.injEq,
      forall_eq']
    refine ⟨fun h hs => ?_, fun h c hc => ?_⟩
    · obtain ⟨c, hc⟩ := Option.isSome_iff_exists.1 hs
      rw [Lib.assigned, assignAt_eq_update hc]
      exact h c hc
    · have h := h (by rw [hc]; rfl)
      rwa [Lib.assigned, assignAt_eq_update hc] at h

/-! Under an environment, a lock that is never released and a bad pointer end what can be said. -/

@[simp] theorem wlp_lock {τ : Type} {serve : Serves SysCall SysAns τ} {Q : Lib → τ → Prop} {u : τ} :
    l.lock.wlp serve Q u ↔ (l.env.mutex = false → Q l.locked u) := by
  unfold Lib.lock
  split
  · next h => exact ⟨fun _ hm => absurd h (by simp [hm]), fun _ e => Empty.elim e⟩
  · next h => exact ⟨fun hQ _ => hQ, fun hQ => hQ (by simpa using h)⟩

@[simp] theorem wlp_deref {τ : Type} {serve : Serves SysCall SysAns τ} {Q : Connection → τ → Prop}
    {u : τ} : (l.deref p).wlp serve Q u ↔ ∀ c, l.heap p = some c → Q c u := by
  unfold Lib.deref
  split
  · next c hc => simp [hc]
  · next hc => exact ⟨fun _ c h => absurd h (by simp [hc]), fun _ e => Empty.elim e⟩

@[simp] theorem wlp_assign {τ : Type} {serve : Serves SysCall SysAns τ} {q : Option ℕ}
    {f : Connection → Connection} {Q : Lib → τ → Prop} {u : τ} : (l.assign q f).wlp serve Q u ↔
      ((∀ p, q = some p → (l.heap p).isSome) → Q (l.assigned q f) u) := by
  cases q with
  | none => simp [Lib.assign, Lib.assigned]
  | some p =>
    simp only [Lib.assign, wlp_bind, wlp_deref, wlp_pure, Option.some.injEq, forall_eq']
    constructor
    · intro h hs
      obtain ⟨c, hc⟩ := Option.isSome_iff_exists.1 hs
      rw [Lib.assigned, assignAt_eq_update hc]
      exact h c hc
    · intro h c hc
      have h := h (by rw [hc]; rfl)
      rwa [Lib.assigned, assignAt_eq_update hc] at h

theorem ensures_isHenv {h : Handle} {Q : Bool → Prop} (hQ : ∀ b, Q b) : (l.isHenv h).Ensures Q :=
  confined_mono (ensures_true _) fun b _ => hQ b

/-- A handle that is accepted is the address of a connection. -/
theorem ensures_isHcon {h : Handle} {Q : Option (ℕ × Connection) → Prop} (hnone : Q none)
    (hsome : ∀ p c, h = .con p → l.heap p = some c → Q (some (p, c))) : (l.isHcon h).Ensures Q := by
  cases h with
  | null => exact hnone
  | env => exact hnone
  | con p =>
    simp only [Lib.isHcon, confined_bind, ensures_deref, confined_pure]
    exact fun c hc => hsome p c rfl hc

theorem ensures_onFile {fd : Option File} {bad : α} {k : File → LibProg α} {Q : α → Prop}
    (hbad : Q bad) (hk : ∀ f, (k f).Ensures Q) : (onFile fd bad k).Ensures Q := by
  cases fd with
  | none => exact hbad
  | some f => exact hk f

/-! ## The books of the library -/

/-- The list of the connections. -/
def Lib.links (l : Lib) : Links ℕ := fun p => (l.heap p).map fun c => (c.prev, c.next)

/-- The counters, the mutex, the descriptor and the list of the connections are the same. -/
structure Lib.SameBooks (l l' : Lib) : Prop where
  usageCount : l'.env.usageCount = l.env.usageCount
  connectionCount : l'.env.connectionCount = l.env.connectionCount
  mutex : l'.env.mutex = l.env.mutex
  fd : l'.env.fd = l.env.fd
  head : l'.env.head = l.env.head
  links : l'.links = l.links

variable {l' l'' : Lib} {c c' : Connection} {h : Handle} {flags : Bitmask} {ep : EnvParams}

theorem Lib.SameBooks.refl (l : Lib) : l.SameBooks l := ⟨rfl, rfl, rfl, rfl, rfl, rfl⟩

theorem Lib.SameBooks.trans (h : l.SameBooks l') (h' : l'.SameBooks l'') : l.SameBooks l'' where
  usageCount := h'.usageCount.trans h.usageCount
  connectionCount := h'.connectionCount.trans h.connectionCount
  mutex := h'.mutex.trans h.mutex
  fd := h'.fd.trans h.fd
  head := h'.head.trans h.head
  links := h'.links.trans h.links

/-- An assignment to a connection that leaves its links alone. -/
theorem sameBooks_setCon (hc : l.heap p = some c) (hn : c'.next = c.next) (hp : c'.prev = c.prev) :
    l.SameBooks (l.setCon p c') where
  usageCount := rfl
  connectionCount := rfl
  mutex := rfl
  fd := rfl
  head := rfl
  links := by
    funext x
    by_cases hx : x = p
    · subst hx
      simp [Lib.links, Lib.setCon, hc, hn, hp]
    · simp [Lib.links, Lib.setCon, Function.update_of_ne hx]

/-- A critical section that leaves the books alone. -/
theorem Lib.SameBooks.unlock (hm : l.env.mutex = false) (h : l.locked.SameBooks l') :
    l.SameBooks l'.unlock where
  usageCount := h.usageCount
  connectionCount := h.connectionCount
  mutex := hm.symm
  fd := h.fd
  head := h.head
  links := h.links

theorem createEventThread_ensures (l : Lib) (c : Connection) :
    (l.createEventThread c).Ensures fun r => l.SameBooks r.2 ∧ r.2.heap = l.heap := by
  have hr : l.SameBooks l ∧ l.heap = l.heap := ⟨.refl l, rfl⟩
  unfold Lib.createEventThread
  split
  · exact ensures_bind fun _ => hr
  · split
    · exact hr
    · refine ensures_bind fun made => ?_
      cases made with
      | false => exact hr
      | true =>
        simp only [if_true, perform_bind, confined_call, true_and]
        intro args
        cases args with
        | false => exact ensures_fault
        | true =>
          simp only [if_true, confined_call, true_and]
          intro created
          cases created with
          | false => exact hr
          | true => exact ensures_bind fun _ => ⟨⟨rfl, rfl, rfl, rfl, rfl, rfl⟩, rfl⟩

theorem setenvparam_sameBooks : (l.setenvparam h ep flags).Ensures fun r => l.SameBooks r.2 := by
  refine confined_bind.2 (ensures_isHenv fun valid => ?_)
  cases valid with
  | false => exact .refl l
  | true =>
    simp only [if_true, Lib.customSetenvparam, confined_bind, ensures_lock, confined_pure]
    intro hm
    exact confined_mono (ensures_true _) fun _ _ =>
      Lib.SameBooks.unlock hm ⟨rfl, rfl, rfl, rfl, rfl, rfl⟩

theorem getenvparam_sameBooks : (l.getenvparam h ep flags).Ensures fun r => l.SameBooks r.2 := by
  refine confined_bind.2 (ensures_isHenv fun valid => ?_)
  cases valid with
  | false => exact .refl l
  | true =>
    simp only [if_true, confined_bind, ensures_lock, confined_pure]
    intro hm
    exact confined_mono (ensures_true _) fun _ _ => Lib.SameBooks.unlock hm (.refl _)

/-! ## Connections -/

/-- The connections have the same file and the same place in the list. -/
structure Connection.SamePlace (c c' : Connection) : Prop where
  fd : c'.fd = c.fd
  next : c'.next = c.next
  prev : c'.prev = c.prev

/-- The mode of a connection after its parameters were set. -/
def Connection.modeAfter (c : Connection) (cp : ConParams) (flags : Bitmask) : Mode :=
  if flags.hits conMode ∧ cp.mode ≠ .unknown then cp.mode else c.mode

variable {cp : ConParams}

/-- What `base_setconparam` makes of a connection. -/
structure SetCon (l : Lib) (p : ℕ) (c : Connection) (cp : ConParams) (flags : Bitmask)
    (c' : Connection) (l' : Lib) : Prop where
  books : l.SameBooks l'
  place : c.SamePlace c'
  heap : l'.heap = Function.update l.heap p (some c')
  mode : c'.mode = c.modeAfter cp flags

theorem baseSetconparam_ensures (hc : l.heap p = some c) : (l.baseSetconparam p c cp flags).Ensures
    fun r => SetCon l p c cp flags r.2.1 r.2.2 := by
  unfold Lib.baseSetconparam
  split
  · next hbad =>
    have hmode : c.modeAfter cp flags = c.mode := by
      simp only [Bool.and_eq_true, decide_eq_true_eq] at hbad
      simp [Connection.modeAfter, hbad.2]
    exact ⟨.refl l, ⟨rfl, rfl, rfl⟩, (Function.update_eq_self_iff.2 hc.symm).symm, hmode.symm⟩
  · next hgood =>
    have hmode : (c.tune cp flags).mode = c.modeAfter cp flags := by
      simp only [Bool.and_eq_true, decide_eq_true_eq, not_and] at hgood
      by_cases hf : flags.hits conMode
      · simp [Connection.tune, Connection.modeAfter, hf, hgood hf]
      · simp [Connection.tune, Connection.modeAfter, hf]
    split
    · simp only [perform_bind, confined_call, true_and, confined_bind, ensures_lock, confined_pure]
      intro pid hm
      refine confined_mono (createEventThread_ensures _ _) ?_
      rintro ⟨rc, l'⟩ ⟨hbooks, hheap⟩
      have hset : l.SameBooks (l.setCon p ((c.tune cp flags).tuneHandler cp pid)) :=
        sameBooks_setCon hc rfl rfl
      have hc' : l'.unlock.heap p = some ((c.tune cp flags).tuneHandler cp pid) := by
        change l'.heap p = _
        rw [hheap]
        exact Function.update_self ..
      refine ⟨(hset.trans (hbooks.unlock hm)).trans (sameBooks_setCon hc' rfl rfl),
        ⟨rfl, rfl, rfl⟩, ?_, hmode⟩
      change Function.update l'.heap p _ = _
      rw [hheap]
      exact Function.update_idem ..
    · exact ⟨sameBooks_setCon hc rfl rfl, ⟨rfl, rfl, rfl⟩, rfl, hmode⟩

/-- `cspi_setconparam` on a connection. -/
theorem setconparam_ensures (hc : l.heap p = some c) : (l.setconparam (.con p) cp flags).Ensures
    fun r => ∃ c', SetCon l p c cp flags c' r.2 := by
  simp only [Lib.setconparam, Lib.isHcon, bind_assoc, confined_bind, ensures_deref, confined_pure]
  intro c₀ hc₀
  obtain rfl : c = c₀ := Option.some.inj (hc.symm.trans hc₀)
  refine confined_mono (baseSetconparam_ensures hc) ?_
  rintro ⟨rc, c', l'⟩ hset
  have hret : ∃ c', SetCon l p c cp flags c' l' := ⟨c', hset⟩
  split
  · exact hret
  · exact ensures_bind fun _ => hret

/-- On another handle it does nothing. -/
theorem setconparam_of_ne (hh : ∀ p, h ≠ .con p) :
    (l.setconparam h cp flags).Ensures fun r => r.2 = l := by
  cases h with
  | con p => exact absurd rfl (hh p)
  | _ => rfl

theorem setconparam_sameBooks : (l.setconparam h cp flags).Ensures fun r => l.SameBooks r.2 := by
  by_cases hh : ∃ p, h = .con p
  · obtain ⟨p, rfl⟩ := hh
    cases hc : l.heap p with
    | none =>
      simp only [Lib.setconparam, Lib.isHcon, bind_assoc, confined_bind, ensures_deref]
      intro c hc'
      rw [hc] at hc'
      cases hc'
    | some c =>
      refine confined_mono (setconparam_ensures hc) ?_
      rintro _ ⟨_, hset⟩
      exact hset.books
  · refine confined_mono (setconparam_of_ne fun p hp => hh ⟨p, hp⟩) ?_
    rintro ⟨rc, l'⟩ hl
    obtain rfl : l' = l := hl
    exact .refl l'

theorem connect_sameBooks : (l.connect h).Ensures fun r => l.SameBooks r.2 := by
  refine confined_bind.2 (ensures_isHcon (.refl l) fun p c _ hc => ?_)
  dsimp only
  split
  · exact .refl l
  · split
    · exact .refl l
    · simp only [perform_bind, confined_call, true_and]
      intro fd
      cases fd with
      | none => exact .refl l
      | some n => exact sameBooks_setCon hc rfl rfl

theorem disconnect_sameBooks : (l.disconnect h).Ensures fun r => l.SameBooks r.2 := by
  refine confined_bind.2 (ensures_isHcon (.refl l) fun p c _ hc => ?_)
  refine ensures_bind fun closed => ?_
  cases closed with
  | false => exact .refl l
  | true => exact sameBooks_setCon hc rfl rfl

theorem seek_ensures {o : BitVec 64} {s : Seek} : (l.seek h o s).Ensures fun r => r.2 = l :=
  confined_bind.2 (ensures_isHcon rfl fun _ _ _ _ => ensures_bind fun _ => rfl)

theorem gettimestamp_ensures : (l.gettimestamp h).Ensures fun r => r.2 = l := by
  refine confined_bind.2 (ensures_isHcon rfl fun p c _ hc => ?_)
  dsimp only
  split
  · rfl
  · split <;> rfl

/-! ## Reading -/

/-- The books and the connections are the same. -/
structure Lib.SameTable (l l' : Lib) : Prop where
  books : l.SameBooks l'
  heap : l'.heap = l.heap

theorem Lib.SameTable.refl (l : Lib) : l.SameTable l := ⟨.refl l, rfl⟩

@[simp] theorem ensures_lockCache {Q : Lib → Prop} : l.lockCache.Ensures Q ↔
    (l.cacheMutex = false → Q { l with cacheMutex := true }) := by
  unfold Lib.lockCache
  split
  · next h => simp [h]
  · next h =>
    have h : l.cacheMutex = false := by simpa using h
    simp [h]

theorem ebppUpdateCache_ensures : l.ebppUpdateCache.Ensures fun r => l.SameTable r.2 := by
  have hkept : ∀ c m, l.SameTable { l with cache := c, cacheMutex := m } := fun _ _ =>
    ⟨⟨rfl, rfl, rfl, rfl, rfl, rfl⟩, rfl⟩
  refine ensures_bind fun ep => ensures_bind fun r => ?_
  dsimp only
  split
  · refine confined_bind.2 (ensures_lockCache.2 fun _ => ensures_bind fun x => ?_)
    cases x with
    | none => exact hkept _ _
    | some x =>
      refine ensures_bind fun y => ?_
      cases y with
      | none => exact hkept _ _
      | some y => exact hkept _ _
  · exact .refl l

theorem customInitop_ensures : l.customInitop.Ensures fun r => l.SameTable r.2 := by
  unfold Lib.customInitop
  split
  · refine confined_bind.2 (ensures_lock.2 fun hm => ?_)
    refine confined_bind.2 (confined_mono ebppUpdateCache_ensures ?_)
    intro r h
    refine ⟨.unlock hm ?_, h.heap⟩
    exact ⟨h.books.usageCount, h.books.connectionCount, h.books.mutex, h.books.fd, h.books.head,
      h.books.links⟩
  · exact .refl l

theorem customGetdefaultop_ensures {mode : Mode} :
    (l.customGetdefaultop mode).Ensures fun r => l.SameTable r.2 := by
  cases mode with
  | dd => exact confined_bind.2 (confined_mono customInitop_ensures fun _ h => h)
  | _ => exact .refl l

variable {tf : Transform} {dest : Buffer} {count : Word} {f : File} {op : Option Operator}

theorem ddRead_sameBooks (hc : l.heap p = some c) {n : ℕ} (r : Received n) :
    (l.ddRead tf p c f dest count r op).Ensures fun r => l.SameBooks r.2 := by
  refine ensures_bind fun ts => ?_
  cases ts with
  | none => exact .refl l
  | some ts =>
    have hset : l.SameBooks (l.setCon p { c with timestamp := ts }) := sameBooks_setCon hc rfl rfl
    cases op with
    | none => exact hset
    | some op =>
      refine confined_bind.2 (confined_mono customInitop_ensures ?_)
      rintro ⟨rc', l'⟩ h
      have hl : l.SameBooks l' := hset.trans h.books
      dsimp only
      split
      · exact hl
      · exact ensures_bind fun _ => hl

theorem readDd_sameBooks (hc : l.heap p = some c) :
    (l.readDd tf p c f dest count op).Ensures fun r => l.SameBooks r.2 := by
  refine ensures_bind fun r => ?_
  cases r with
  | none => exact .refl l
  | some r => exact ddRead_sameBooks hc r

theorem readAdc_sameBooks :
    (l.readAdc tf c f dest count op).Ensures fun r => l.SameBooks r.2 := by
  refine ensures_bind fun place => ?_
  cases place with
  | none => exact .refl l
  | some place =>
    refine ensures_bind fun r => ?_
    cases r with
    | none => exact .refl l
    | some r =>
      cases op with
      | none => exact .refl l
      | some op =>
        refine confined_bind.2 (confined_mono customInitop_ensures ?_)
        rintro ⟨rc', l'⟩ h
        dsimp only
        split
        · exact h.books
        · exact ensures_bind fun _ => h.books

theorem readAvg_sameBooks (hc : l.heap p = some c) :
    (l.readAvg p c f dest).Ensures fun r => l.SameBooks r.2 := by
  refine confined_bind.2 (confined_mono seek_ensures ?_)
  rintro ⟨rc, l'⟩ hl
  obtain rfl : l' = l := hl
  dsimp only
  split
  · exact .refl l'
  · refine ensures_bind fun r => ?_
    cases r with
    | none => exact .refl l'
    | some r =>
      refine ensures_bind fun ts => ?_
      cases ts with
      | none => exact .refl l'
      | some ts =>
        refine ensures_bind fun params => ?_
        refine confined_bind.2 (confined_mono getenvparam_sameBooks ?_)
        rintro ⟨⟨rc, params⟩, l''⟩ h
        have hset : l'.SameBooks (l'.setCon p { c with timestamp := ts }) :=
          sameBooks_setCon hc rfl rfl
        have hl : l'.SameBooks l'' := hset.trans h
        dsimp only
        split
        · exact hl
        · exact ensures_bind fun _ => hl

theorem readEx_sameBooks : (l.readEx tf h dest count op).Ensures fun r => l.SameBooks r.2 := by
  refine confined_bind.2 (ensures_isHcon (.refl l) fun p c _ hc => ?_)
  dsimp only
  split
  · exact .refl l
  · refine ensures_onFile (.refl l) fun f => ?_
    cases c.mode with
    | sa => exact .refl l
    | adc | adcCw | adcSp | adcSpRot => exact readAdc_sameBooks
    | average => exact readAvg_sameBooks hc
    | dd | pm | unknown => exact readDd_sameBooks hc

theorem read_sameBooks : (l.read tf h dest count).Ensures fun r => l.SameBooks r.2 := by
  cases h with
  | null | env => exact ensures_fault
  | con p =>
    refine ensures_bind fun c => ?_
    refine confined_bind.2 (confined_mono customGetdefaultop_ensures ?_)
    intro r hl
    exact confined_mono readEx_sameBooks fun r hr => hl.books.trans hr

theorem get_ensures : (l.get h dest).Ensures fun r => r.2 = l := by
  refine confined_bind.2 (ensures_isHcon rfl fun p c _ hc => ?_)
  dsimp only
  split
  · rfl
  · refine ensures_onFile rfl fun f => ?_
    split
    · rfl
    · refine ensures_bind fun r => ?_
      cases r <;> rfl

/-! ## All calls -/

/-- The calls that allocate or free handles. -/
def managesHandles : CspiCall → Bool
  | .allochandle _ _ | .freehandle _ _ => true
  | _ => false

/-- **The books are left alone** by every call that does not manage handles, whatever the system
answers. -/
theorem cspiImpl_sameBooks (tf : Transform) (call : CspiCall) (hm : managesHandles call = false)
    (l : Lib) : (cspiImpl tf call l).Ensures fun r => l.SameBooks r.2 := by
  have hsame : ∀ {R : Type} {p : LibProg (R × Lib)}, (p.Ensures fun r => r.2 = l) →
      p.Ensures fun r => l.SameBooks r.2 := fun hp =>
    confined_mono hp fun r hr => hr ▸ .refl r.2
  cases call with
  | allochandle | freehandle => cases hm
  | setlibparam s =>
    refine confined_bind.2 (ensures_lock.2 fun hm => ?_)
    exact Lib.SameBooks.unlock hm ⟨rfl, rfl, rfl, rfl, rfl, rfl⟩
  | setenvparam => exact setenvparam_sameBooks
  | getenvparam => exact getenvparam_sameBooks
  | setconparam => exact setconparam_sameBooks
  | connect => exact connect_sameBooks
  | disconnect => exact disconnect_sameBooks
  | seek => exact hsame seek_ensures
  | read => exact read_sameBooks
  | get => exact hsame get_ensures
  | gettimestamp => exact hsame gettimestamp_ensures
  | settime => exact ensures_bind fun _ => .refl l

end LiberaDaq.Cspi
