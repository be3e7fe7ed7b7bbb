import LiberaDaq.Cspi.Frames

/-!
# The list of the connections

The connections of the environment form a doubly linked list on the heap: `Lib.Listed l ps` says
that its cells are at the addresses `ps`, in this order. `insert_con` pushes a connection to the
front (`insertCon_eq`, `inserted_listed`) and `remove_con` takes one out (`removeCon_eq`,
`removed_listed`); no other function touches the links. So the connections form a list in every
state that the library reaches, whatever the system answers, as long as `malloc` gives out no
address that is in use (`libStep_listed`).
-/

namespace LiberaDaq.Cspi

open LiberaDaq.Interaction LiberaDaq.Memory Prog

variable {l l' : Lib} {p : ℕ} {ps : List ℕ} {c : Connection} {tf : Transform}

/-- The connections form the list `ps`. -/
structure Lib.Listed (l : Lib) (ps : List ℕ) : Prop where
  nodup : ps.Nodup
  head : l.env.head = ps.head?
  links : l.links = linksOf none ps
  count : l.env.connectionCount = BitVec.ofNat 32 ps.length

theorem Lib.Listed.isSome (h : l.Listed ps) : (l.heap p).isSome ↔ p ∈ ps := by
  rw [← linksOf_isSome none, ← h.links, Lib.links, Option.isSome_map]

theorem Lib.Listed.cell (h : l.Listed ps) (hc : l.heap p = some c) :
    linksOf none ps p = some (c.prev, c.next) := by
  rw [← h.links, Lib.links, hc]
  rfl

/-- The pointer to the next connection, by position. -/
theorem Lib.Listed.next {qs : List ℕ} (h : l.Listed ps) (hq : p :: qs <:+ ps)
    (hc : l.heap p = some c) : c.next = qs.head? := by
  obtain ⟨pv, hcell⟩ := linksOf_suffix none h.nodup hq
  have hcell' := h.cell hc
  rw [hcell] at hcell'
  exact (Prod.mk.inj (Option.some.inj hcell')).2.symm

theorem loaded_listed : Lib.loaded.Listed [] := ⟨List.nodup_nil, rfl, rfl, rfl⟩

/-- The list, the head and the count of the connections are the same. -/
structure Lib.SameList (l l' : Lib) : Prop where
  head : l'.env.head = l.env.head
  links : l'.links = l.links
  count : l'.env.connectionCount = l.env.connectionCount

theorem Lib.SameList.listed (hs : l.SameList l') (h : l.Listed ps) : l'.Listed ps where
  nodup := h.nodup
  head := hs.head.trans h.head
  links := hs.links.trans h.links
  count := hs.count.trans h.count

theorem Lib.SameBooks.sameList (h : l.SameBooks l') : l.SameList l' :=
  ⟨h.head, h.links, h.connectionCount⟩

/-! ## Steps that go through -/

theorem lock_eq (hm : l.env.mutex = false) : l.lock = Pure.pure l.locked := if_neg (by simp [hm])

theorem deref_eq (hc : l.heap p = some c) : l.deref p = Pure.pure c := by
  rw [Lib.deref, hc]

theorem assign_eq {q : Option ℕ} {f : Connection → Connection}
    (h : ∀ p, q = some p → (l.heap p).isSome) : l.assign q f = Pure.pure (l.assigned q f) := by
  cases q with
  | none => rfl
  | some p =>
    obtain ⟨c, hc⟩ := Option.isSome_iff_exists.1 (h p rfl)
    rw [Lib.assign, deref_eq hc, pure_bind, Lib.assigned, assignAt_eq_update hc]
    rfl

/-! ## A connection is inserted -/

/-- The library with a new connection at the front. -/
def Lib.inserted (l : Lib) (p : ℕ) (c : Connection) : Lib :=
  (((l.setCon p { c with next := l.env.head }).assigned l.env.head
    fun q => { q with prev := some p }).setEnv fun e =>
      { e with head := some p, connectionCount := e.connectionCount + 1 }).unlock

theorem insertCon_eq (h : l.Listed ps) (hm : l.env.mutex = false) :
    l.insertCon p c = Pure.pure (l.inserted p c) := by
  have hhead : ∀ q, l.locked.env.head = some q →
      ((l.locked.setCon p { c with next := l.locked.env.head }).heap q).isSome := by
    intro q hq
    change (Function.update l.heap p _ q).isSome
    by_cases hqp : q = p
    · simp [hqp]
    · rw [Function.update_of_ne hqp]
      exact h.isSome.2 (List.mem_of_mem_head? (h.head ▸ hq))
  rw [Lib.insertCon, lock_eq hm, pure_bind, assign_eq hhead, pure_bind]
  rfl

theorem inserted_listed (h : l.Listed ps) (hp : p ∉ ps) (hc : c.prev = none) :
    (l.inserted p c).Listed (p :: ps) where
  nodup := List.nodup_cons.2 ⟨hp, h.nodup⟩
  head := rfl
  links := by
    have hhead : l.env.head ≠ some p := fun hh => hp (List.mem_of_mem_head? (h.head ▸ hh))
    have hmap := map_assignAt (fun c : Connection => (c.prev, c.next))
      (Function.update l.heap p (some { c with next := l.env.head })) l.env.head
      (fun q => { q with prev := some p }) (fun x => (some p, x.2)) fun _ => rfl
    have hupdate : (fun x => (Function.update l.heap p
        (some { c with next := l.env.head }) x).map fun c => (c.prev, c.next)) =
          Function.update l.links p (some (none, l.env.head)) := by
      funext x
      by_cases hx : x = p
      · subst hx
        simp [hc]
      · simp [Lib.links, Function.update_of_ne hx]
    rw [linksOf_push h.nodup, ← h.head, ← h.links, ← assignAt_update_of_ne hhead, ← hupdate]
    exact hmap
  count := by
    change l.env.connectionCount + 1 = _
    rw [h.count, List.length_cons, BitVec.ofNat_add]
    rfl

/-! ## A connection is taken out -/

/-- The library without the connection in its list. -/
def Lib.removed (l : Lib) (p : ℕ) (c : Connection) : Lib :=
  ((((l.assigned c.prev fun q => { q with next := c.next }).assigned c.next
    fun q => { q with prev := c.prev }).setEnv fun e =>
      { e with head := if e.head = some p then c.next else e.head }).assigned (some p)
        fun q => { q with prev := none, next := none }).setEnv fun e =>
          { e with connectionCount := e.connectionCount - 1 }

/-- The end of `remove_con`, for the connection that was taken out. -/
def Lib.removeEnd (l : Lib) (c : Connection) : LibProg Lib :=
  if l.env.connectionCount = 0 then do
    let _ ← unregisterEventHandler c
    let l ← l.destroyEventThread
    Pure.pure l.unlock
  else Pure.pure l.unlock

theorem removeCon_eq (h : l.Listed ps) (hm : l.env.mutex = false) (hc : l.heap p = some c) :
    l.removeCon p = (l.locked.removed p c).removeEnd c := by
  have hcell := h.cell hc
  have hprev : ∀ q, c.prev = some q → (l.heap q).isSome := by
    intro q hq
    rcases linksOf_prev hcell with ⟨-, hp⟩ | ⟨-, a, ha, hp⟩
    · rw [hp] at hq
      cases hq
    · obtain rfl := Option.some.inj (hp.symm.trans hq)
      exact h.isSome.2 ha
  have hnext : ∀ q, c.next = some q → (l.heap q).isSome := fun q hq =>
    h.isSome.2 (linksOf_next (hq ▸ hcell))
  have hlocked : l.locked.heap p = some c := hc
  have hheap : l.locked.heap = l.heap := rfl
  rw [Lib.removeCon, lock_eq hm, pure_bind, deref_eq hlocked, pure_bind,
    assign_eq (l := l.locked) hprev,
    pure_bind, assign_eq fun q hq => by simpa [Lib.assigned, hheap] using hnext q hq, pure_bind]
  dsimp only
  rw [assign_eq fun q hq => ?_, pure_bind]
  · rfl
  · obtain rfl := Option.some.inj hq
    simp [Lib.assigned, Lib.setEnv, Lib.locked, hc]

/-- Under an environment, `remove_con` is its end after the connection was taken out. -/
theorem wlp_removeCon {τ : Type} {serve : Serves SysCall SysAns τ} {Q : Lib → τ → Prop} {u : τ}
    (hc : l.heap p = some c) (h : ((l.locked.removed p c).removeEnd c).wlp serve Q u) :
    (l.removeCon p).wlp serve Q u := by
  simp only [Lib.removeCon, wlp_bind, wlp_lock, wlp_deref, wlp_assign]
  intro _ c' hc' _ _ _
  obtain rfl : c = c' := Option.some.inj (hc.symm.trans hc')
  exact h

theorem removed_listed (h : l.Listed ps) (hc : l.heap p = some c) :
    ((l.removed p c).freeCon p).Listed (ps.erase p) := by
  have hcell := h.cell hc
  have hp : p ∈ ps := h.isSome.1 (by rw [hc]; rfl)
  refine ⟨h.nodup.erase p, ?_, ?_, ?_⟩
  · rw [head?_erase hp hcell, ← h.head]
    rfl
  · have hmap := map_unlink (k := l.heap) (p := p) c.prev c.next
      (fun c : Connection => (c.prev, c.next)) (f := fun q => { q with next := c.next })
      (b := fun q => { q with prev := c.prev }) (fun _ => rfl) fun _ => rfl
    rw [← linksOf_unlink h.nodup hcell, ← h.links]
    refine Eq.trans (funext fun x => ?_) hmap
    by_cases hx : x = p
    · subst hx
      simp [Lib.links, Lib.freeCon]
    · have hx' : (some p : Option ℕ) ≠ some x := by simpa using Ne.symm hx
      simp [Lib.links, Lib.freeCon, Lib.removed, Lib.assigned, Lib.setEnv, Function.update_of_ne hx,
        assignAt_of_ne hx']
  · change l.env.connectionCount - 1 = _
    obtain ⟨n, hn⟩ := Nat.exists_eq_succ_of_ne_zero (List.length_pos_of_mem hp).ne'
    rw [h.count, List.length_erase_of_mem hp, hn, Nat.succ_eq_add_one, BitVec.ofNat_add]
    simp

/-! ## Lives -/

/-- `malloc` gives out no address that is in use. -/
def mallocFresh : (c : SysCall) → SysAns c → Prop
  | .malloc used, q => ∀ p, q = some p → used p = false
  | _, _ => True

instance (ev : SysEvent) : Decidable (mallocFresh ev.1 ev.2) :=
  match ev with
  | ⟨.malloc _, none⟩ => isTrue fun _ hp => nomatch hp
  | ⟨.malloc used, some p⟩ => decidable_of_iff (used p = false)
    ⟨fun h _ hq => Option.some.inj hq ▸ h, fun h => h p rfl⟩
  | ⟨.open _ _, _⟩ | ⟨.close _, _⟩ | ⟨.getMagic _, _⟩ | ⟨.getCfg _ _, _⟩ | ⟨.setCfg _ _ _, _⟩
  | ⟨.getDdTstamp _, _⟩ | ⟨.getPmTstamp _, _⟩ | ⟨.setDec _ _, _⟩ | ⟨.setMt _ _, _⟩
  | ⟨.setSt _ _, _⟩ | ⟨.getfl _, _⟩ | ⟨.setNonblock _ _, _⟩ | ⟨.lseek _ _ _, _⟩
  | ⟨.read _ _ _ _, _⟩ | ⟨.store _ _, _⟩ | ⟨.alloc, _⟩ | ⟨.getpid, _⟩ | ⟨.mkfifo _, _⟩
  | ⟨.pthreadCreate, _⟩ | ⟨.pthreadJoin, _⟩ | ⟨.writeRequest _ _, _⟩ | ⟨.sigaction, _⟩
  | ⟨.uninitEnv, _⟩ | ⟨.dscMessage _ _, _⟩ | ⟨.pllSetcmd _, _⟩ | ⟨.pllGetstatus, _⟩
  | ⟨.health, _⟩ | ⟨.toattn _, _⟩ | ⟨.hang, _⟩ | ⟨.fault, _⟩ => isTrue trivial

theorem baseInitenv_sameList : l.baseInitenv.Ensures fun r => l.SameList r.2 := by
  unfold Lib.baseInitenv
  split
  · refine ensures_bind fun fd => ?_
    cases fd with
    | none => exact ensures_bind fun _ => ⟨rfl, rfl, rfl⟩
    | some n => exact ensures_bind fun _ => ⟨rfl, rfl, rfl⟩
  · exact ensures_bind fun _ => ⟨rfl, rfl, rfl⟩

theorem allocEnv_sameList : l.allocEnv.Ensures fun r => l.SameList r.2 := by
  refine confined_bind.2 (ensures_lock.2 fun _ => ?_)
  refine confined_bind.2 (confined_bind.2 (confined_mono baseInitenv_sameList ?_))
  rintro ⟨rc, l'⟩ h
  have hl : l.SameList l' := ⟨h.head, h.links, h.count⟩
  dsimp only
  split
  · refine ensures_bind fun val => ?_
    cases val with
    | none => exact ⟨hl.head, hl.links, hl.count⟩
    | some d => exact ⟨hl.head, hl.links, hl.count⟩
  · exact ⟨hl.head, hl.links, hl.count⟩

theorem freeEnv_sameList : l.freeEnv.Ensures fun l' => l.SameList l' :=
  confined_bind.2 (ensures_lock.2 fun _ => ⟨rfl, rfl, rfl⟩)

theorem destroyEnv_sameList : l.destroyEnv.Ensures fun r => l.SameList r.2 := by
  refine confined_bind.2 (ensures_lock.2 fun _ => ?_)
  split
  · split
    · exact ⟨rfl, rfl, rfl⟩
    · exact ensures_bind fun _ => ensures_bind fun _ => ⟨rfl, rfl, rfl⟩
  · exact ⟨rfl, rfl, rfl⟩

theorem Lib.SameList.trans {l'' : Lib} (h : l.SameList l') (h' : l'.SameList l'') :
    l.SameList l'' :=
  ⟨h'.head.trans h.head, h'.links.trans h.links, h'.count.trans h.count⟩

/-- After the connection was taken out nothing happens to the list any more. -/
theorem removeEnd_sameList :
    (l.removeEnd c).Ensures fun l' => l.SameList l' ∧ l'.heap = l.heap := by
  unfold Lib.removeEnd
  split
  · refine ensures_bind fun _ => ?_
    unfold Lib.destroyEventThread
    split
    · exact confined_bind.2 (ensures_bind fun _ => ⟨⟨rfl, rfl, rfl⟩, rfl⟩)
    · exact ⟨⟨rfl, rfl, rfl⟩, rfl⟩
  · exact ⟨⟨rfl, rfl, rfl⟩, rfl⟩

variable {h : Handle} {type : HandleType}

/-- The connections that are live after a call, by its answer. -/
def liveAfter (ps : List ℕ) : Event CspiCall CspiAns → List ℕ
  | ⟨.allochandle .con _, (rc, .con p)⟩ => if rc = cspiOk then p :: ps else ps
  | ⟨.freehandle .con (.con p), rc⟩ => if rc = cspiOk then ps.erase p else ps
  | _ => ps

/-- The connections form a list after an allocation. -/
theorem allochandle_listed (hl : l.Listed ps) : (l.allochandle type h).wlp (allowing mallocFresh)
    (fun r _ => r.2.Listed (liveAfter ps ⟨.allochandle type h, r.1⟩)) () := by
  cases type with
  | env =>
    refine wlp_mono (wlp_of_ensures (R := fun r => l.SameList r.2) ?_) fun r _ hr =>
      hr.listed hl
    refine confined_bind.2 (confined_mono allocEnv_sameList fun r hr => ?_)
    dsimp only
    split
    · exact confined_bind.2 (confined_mono freeEnv_sameList fun _ h => hr.trans h)
    · exact hr
  | con =>
    refine wlp_seq (wlp_of_ensures (ensures_true _)) fun valid _ _ => ?_
    cases valid with
    | false => exact hl
    | true =>
      simp only [if_true, Lib.allocCon, bind_assoc]
      refine wlp_perform_bind.2 fun q _ hq => ?_
      cases q with
      | none => exact fun e => Empty.elim e
      | some p =>
        have hp : p ∉ ps := fun hmem => by
          have hused : (l.heap p).isSome = false := hq p rfl
          rw [hl.isSome.2 hmem] at hused
          cases hused
        have hl' : Lib.Listed { l with lastId := l.lastId + 1 } ps :=
          ⟨hl.nodup, hl.head, hl.links, hl.count⟩
        simp only [bind_assoc, pure_bind]
        cases hm : l.env.mutex with
        | true =>
          rw [Lib.insertCon, Lib.lock, if_pos hm]
          exact fun e => Empty.elim e
        | false =>
          rw [insertCon_eq hl' hm, pure_bind]
          exact inserted_listed hl' hp rfl

theorem freehandle_con_listed (hl : l.Listed ps) : (l.freehandle .con h).Ensures fun r =>
    r.2.Listed (liveAfter ps ⟨.freehandle .con h, r.1⟩) := by
  unfold Lib.freehandle
  split
  · next hnull =>
    subst hnull
    exact hl
  · cases h with
    | null | env => exact hl
    | con p =>
      simp only [Lib.isHcon, bind_assoc, pure_bind]
      refine confined_bind.2 (ensures_deref.2 fun c hc => ?_)
      split
      · exact hl
      · cases hm : l.env.mutex with
        | true =>
          rw [Lib.removeCon, Lib.lock, if_pos hm]
          exact ⟨trivial, fun e => e.elim⟩
        | false =>
          rw [removeCon_eq hl hm hc]
          refine confined_bind.2 (confined_mono removeEnd_sameList fun l' hs => ?_)
          obtain ⟨hs, hheap⟩ := hs
          have hl' : Lib.Listed l.locked ps := ⟨hl.nodup, hl.head, hl.links, hl.count⟩
          have hlisted := removed_listed hl' hc
          have hlinks : (l'.freeCon p).links = ((l.locked.removed p c).freeCon p).links := by
            funext x
            simp only [Lib.links, Lib.freeCon, hheap]
          exact ⟨hlisted.nodup, hs.head.trans hlisted.head, hlinks.trans hlisted.links,
            hs.count.trans hlisted.count⟩

theorem freehandle_env_sameList : (l.freehandle .env h).Ensures fun r => l.SameList r.2 := by
  have hrefl : l.SameList l := ⟨rfl, rfl, rfl⟩
  unfold Lib.freehandle
  split
  · exact hrefl
  · refine ensures_bind fun valid => ?_
    cases valid with
    | false => exact hrefl
    | true =>
      refine confined_bind.2 (confined_mono destroyEnv_sameList fun r hr => ?_)
      dsimp only
      split
      · exact confined_bind.2 (confined_mono freeEnv_sameList fun _ h => hr.trans h)
      · exact hr

/-- The connections that are live after a step. -/
def liveStep (ps : List ℕ) (x : LibResult) : List ℕ := x.elim ps (liveAfter ps)

/-- **The live connections form a list** after every step of the library. -/
theorem libStep_lists {op : LibOp} (hl : l.Listed ps) : (libStep tf op l).wlp
    (allowing mallocFresh) (fun r _ => r.2.Listed (liveStep ps r.1)) () := by
  cases op with
  | deliver p =>
    dsimp only [libStep, wlp_pure, Lib.signalHandlerHook]
    split
    · exact ⟨hl.nodup, hl.head, hl.links, hl.count⟩
    · exact hl
  | call call =>
    suffices hcall : (cspiImpl tf call l).wlp (allowing mallocFresh)
        (fun r _ => r.2.Listed (liveAfter ps ⟨call, r.1⟩)) () from wlp_seq hcall fun r _ hr => hr
    cases hm : managesHandles call with
    | false =>
      refine wlp_mono (wlp_of_ensures (cspiImpl_sameBooks tf call hm l)) fun r _ hr => ?_
      have hlist := hr.sameList.listed hl
      cases call with
      | allochandle | freehandle => cases hm
      | _ => exact hlist
    | true =>
      cases call with
      | allochandle type h => exact allochandle_listed hl
      | freehandle type h =>
        cases type with
        | env =>
          exact wlp_mono (wlp_of_ensures freehandle_env_sameList) fun r _ hr => hr.listed hl
        | con => exact wlp_of_ensures (freehandle_con_listed hl)
      | _ => cases hm

theorem libStep_listed {op : LibOp} (hl : l.Listed ps) : (libStep tf op l).wlp
    (allowing mallocFresh) (fun r _ => ∃ ps', r.2.Listed ps') () :=
  wlp_mono (libStep_lists hl) fun _ _ hr => ⟨_, hr⟩

end LiberaDaq.Cspi
