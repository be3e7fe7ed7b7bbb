import LiberaDaq.Eventd.Dispatch
import LiberaDaq.Memory.LinkedList

/-!
# The listeners in memory

The daemon keeps its listeners in a doubly linked list. `handle_event` goes along it and takes
listeners off it on the way: it moves on to the next one first, and takes off the one it has left.
`handleEvent_listeners` says what comes of it, whatever the calls that open, write and close the
pipes give back; `notify_runs` is the step from the list in memory to the list of `dispatch`.
-/

namespace LiberaDaq.Eventd

open LiberaDaq.Interaction LiberaDaq.Cspi LiberaDaq.Memory
open LiberaDaq.Interaction.Prog hiding pure bind call

/-- A `Listener` in memory. -/
structure Node (P : Type) where
  listener : Listener
  prev : Option P
  next : Option P

/-- The listeners: the cells, `listener_head` and `listener_count`. -/
structure Listeners (P : Type) where
  cells : P → Option (Node P)
  head : Option P
  count : Word

/-- No listeners. -/
def Listeners.empty {P : Type} : Listeners P := ⟨fun _ => none, none, 0⟩

section

variable {P : Type} [DecidableEq P]

/-! ## handle_event -/

/-- The assignments of `remove_listener`, with `free`. -/
def Listeners.without (l : Listeners P) (p : P) (c : Node P) : Listeners P where
  cells := Function.update (assignAt (assignAt l.cells c.prev fun q => { q with next := c.next })
    c.next fun q => { q with prev := c.prev }) p none
  head := if l.head = some p then c.next else l.head
  count := l.count - 1

/-- The assignments of `insert_listener`, for the address `p` that `malloc` gives it. -/
def Listeners.push (l : Listeners P) (p : P) (q : Listener) : Listeners P where
  cells := Function.update (assignAt l.cells l.head fun c => { c with prev := some p }) p
    (some ⟨q, none, l.head⟩)
  head := some p
  count := l.count + 1

/-- `remove_listener`; `none` when the pointer is wild. -/
def removeListener (p : P) (l : Listeners P) : DaemonProg (Option (Listeners P)) :=
  match l.cells p with
  | none => pure none
  | some c => do
    let _ ← call (.unlinkFifo c.listener.pid)
    pure (some (l.without p c))

/-- At most `n` turns of the loop of `handle_event` from the pointer `q` on, with the listeners that
it came to; `none` when they are not enough, or a pointer is wild. -/
def notify (e : EventHdr) : ℕ → Option P → Listeners P → DaemonProg (Option (List P × Listeners P))
  | _, none, l => pure (some ([], l))
  | 0, some _, _ => pure none
  | n + 1, some p, l =>
    match l.cells p with
    | none => pure none
    | some c => do
      let ghost ← alert e c.listener
      -- `q` is `c.next` from here on
      match ← if ghost then removeListener p l else pure (some l) with
      | none => pure none
      | some l => do
        let r ← notify e n c.next l
        pure (r.map fun x => (p :: x.1, x.2))

/-- `handle_event`. -/
def handleEventAt (e : EventHdr) (n : ℕ) (l : Listeners P) :
    DaemonProg (Option (List P × Listeners P)) := do
  let _ ← acknowledge e
  notify e n l.head l

/-! ## The list -/

/-- The cells form the list `ps`, with the listeners `dat`. -/
structure Listeners.Listed (l : Listeners P) (ps : List P) (dat : P → Listener) : Prop where
  nodup : ps.Nodup
  head : l.head = ps.head?
  links : (fun p => (l.cells p).map fun c => (c.prev, c.next)) = linksOf none ps
  count : l.count = BitVec.ofNat 32 ps.length
  listener : ∀ p c, l.cells p = some c → c.listener = dat p

variable {l : Listeners P} {ps qs : List P} {dat : P → Listener} {p : P} {c : Node P} {e : EventHdr}
  {tr : List (Event DaemonCall DaemonAns)} {n : ℕ}

theorem Listeners.Listed.links_at (h : l.Listed ps dat) (p : P) :
    (l.cells p).map (fun c => (c.prev, c.next)) = linksOf none ps p :=
  congrFun h.links p

theorem Listeners.Listed.isSome (h : l.Listed ps dat) : (l.cells p).isSome ↔ p ∈ ps := by
  rw [← linksOf_isSome none, ← h.links_at, Option.isSome_map]

/-- The pointer to the next listener, by position. -/
theorem Listeners.Listed.next (h : l.Listed ps dat) (hq : p :: qs <:+ ps)
    (hc : l.cells p = some c) : c.next = qs.head? := by
  obtain ⟨pv, hcell⟩ := linksOf_suffix none h.nodup hq
  have hlinks := h.links_at p
  rw [hcell, hc] at hlinks
  exact (Prod.mk.inj (Option.some.inj hlinks)).2

/-- An assignment to links leaves the listeners as they are. -/
theorem assignAt_listener {k : P → Option (Node P)} {q : Option P} {f : Node P → Node P}
    (hk : ∀ p c, k p = some c → c.listener = dat p) (hf : ∀ c, (f c).listener = c.listener) :
    ∀ p c, assignAt k q f p = some c → c.listener = dat p := by
  intro p c hc
  unfold assignAt at hc
  split at hc
  · obtain ⟨c', hc', rfl⟩ := Option.map_eq_some_iff.1 hc
    rw [hf, hk p c' hc']
  · exact hk p c hc

theorem Listeners.Listed.empty (dat : P → Listener) :
    (Listeners.empty : Listeners P).Listed [] dat :=
  ⟨List.nodup_nil, rfl, rfl, rfl, by simp [Listeners.empty]⟩

/-- **A listener is put in front of the list.** -/
theorem Listeners.Listed.push (h : l.Listed ps dat) (hp : l.cells p = none) (q : Listener) :
    (l.push p q).Listed (p :: ps) (Function.update dat p q) := by
  have hps : p ∉ ps := by rw [← h.isSome, hp]; simp
  refine ⟨h.nodup.cons hps, rfl, ?_, ?_, fun x c' hx => ?_⟩
  · rw [linksOf_push h.nodup, ← h.links, ← h.head]
    exact map_push (fun c : Node P => (c.prev, c.next)) fun _ => rfl
  · rw [Listeners.push, h.count, List.length_cons, BitVec.ofNat_add]
    rfl
  · by_cases hxp : x = p
    · subst hxp
      simp only [Listeners.push, Function.update_self, Option.some.injEq] at hx
      simp [← hx]
    · dsimp only [Listeners.push] at hx
      rw [Function.update_of_ne hxp] at hx
      rw [Function.update_of_ne hxp]
      exact assignAt_listener (f := fun c => { c with prev := some p }) h.listener (fun _ => rfl)
        x c' hx

/-- **A listener is taken off the list.** -/
theorem Listeners.Listed.without (h : l.Listed ps dat) (hc : l.cells p = some c) :
    (l.without p c).Listed (ps.erase p) dat := by
  have hp : p ∈ ps := h.isSome.1 (by rw [hc]; rfl)
  have hcell : linksOf none ps p = some (c.prev, c.next) := by
    rw [← h.links_at, hc]
    rfl
  refine ⟨h.nodup.erase p, ?_, ?_, ?_, fun q c' hq => ?_⟩
  · rw [head?_erase hp hcell, ← h.head]
    rfl
  · rw [← linksOf_unlink h.nodup hcell, ← h.links]
    exact map_unlink _ _ (fun c : Node P => (c.prev, c.next)) (fun _ => rfl) fun _ => rfl
  · obtain ⟨n, hn⟩ := Nat.exists_eq_succ_of_ne_zero (List.length_pos_of_mem hp).ne'
    rw [Listeners.without, h.count, List.length_erase_of_mem hp, hn, Nat.succ_eq_add_one,
      BitVec.ofNat_add]
    simp
  · by_cases hqp : q = p
    · rw [hqp] at hq
      simp [Listeners.without] at hq
    · dsimp only [Listeners.without] at hq
      rw [Function.update_of_ne hqp] at hq
      have hprev := assignAt_listener (q := c.prev) (f := fun q => { q with next := c.next })
        h.listener fun _ => rfl
      exact assignAt_listener (f := fun q => { q with prev := c.prev }) hprev (fun _ => rfl) q c' hq

/-! ## One listener -/

/-- The error that the pipe of a listener reported in its turn: the one of opening it, or the one of
the write, unless another one came from closing it then. -/
def pipeError : Trace → Option Errno
  | ⟨.openFifo _, some err⟩ :: _ => some err
  | ⟨.openFifo _, none⟩ :: ⟨.writeFifo _ _, some err⟩ :: ⟨.closeFifo _, errno⟩ :: _ =>
    some (errno.getD err)
  | _ => none

/-- The pipe reported that there is no reader, or no pipe. -/
def gone (t : Trace) : Bool := pipeError t = some .enxio || pipeError t = some .enoent

/-- The event is written to the pipe at most once, and only if the listener waits for it. -/
structure OneWrite (e : EventHdr) (q : Listener) (t : Trace) : Prop where
  once : (t.countP fun c => isWrite c.1) ≤ 1
  wanted : ∀ pid e' err, ⟨.writeFifo pid e', err⟩ ∈ t →
    pid = q.pid ∧ e' = e ∧ e.id &&& q.mask ≠ 0

/-- **One listener.** Its turn makes at most one write, and it is a ghost if its pipe is gone; `t` is
what follows in the turn. -/
theorem alert_runs {q : Listener} {ghost : Bool} {t : Trace} (h : (alert e q).Runs tr ghost)
    (ht : ∀ c ∈ t, ∃ pid err, c = ⟨.unlinkFifo pid, err⟩) :
    OneWrite e q (tr ++ t) ∧ gone (tr ++ t) = ghost := by
  have hw : ∀ pid e' err, (⟨.writeFifo pid e', err⟩ : Event DaemonCall DaemonAns) ∉ t := by
    rintro pid e' err hm
    obtain ⟨_, _, hc⟩ := ht _ hm
    cases hc
  have hcount : (t.countP fun c => isWrite c.1) = 0 := by
    refine List.countP_eq_zero.2 fun c hc => ?_
    obtain ⟨_, _, rfl⟩ := ht c hc
    simp [isWrite]
  unfold alert at h
  split at h
  · next hq =>
    have hmask : e.id &&& q.mask ≠ 0 := by simpa [Listener.wants] using hq
    unfold signal at h
    simp only [perform_bind, runs_call] at h
    obtain ⟨err, t₁, rfl, h⟩ := h
    cases err with
    | some err =>
      obtain ⟨rfl, rfl⟩ := h
      refine ⟨⟨?_, fun pid e' err' hm => ?_⟩, ?_⟩
      · simp only [List.cons_append, List.nil_append, List.countP_cons, hcount]
        exact Nat.zero_le 1
      · simp [hw] at hm
      · simp [gone, pipeError]
    | none =>
      simp only [runs_call] at h
      obtain ⟨err, t₁, rfl, errno, t₂, rfl, h⟩ := h
      have hone : ∀ err, OneWrite e q (⟨.openFifo q.pid, none⟩ :: ⟨.writeFifo q.pid e, err⟩ ::
          ⟨.closeFifo q.pid, errno⟩ :: t) := by
        refine fun err => ⟨?_, fun pid e' err' hm => ?_⟩
        · simp only [List.countP_cons, hcount]
          exact le_refl 1
        · simp only [List.mem_cons, reduceCtorEq, Sigma.mk.injEq, DaemonCall.writeFifo.injEq, hw,
            false_and, or_false, false_or] at hm
          exact ⟨hm.1.1, hm.1.2, hmask⟩
      cases err with
      | none =>
        obtain ⟨rfl, rfl⟩ := h
        exact ⟨hone _, rfl⟩
      | some err =>
        obtain ⟨rfl, rfl⟩ := h
        exact ⟨hone _, by simp [gone, pipeError]⟩
  · next hq =>
    obtain ⟨rfl, rfl⟩ := h
    refine ⟨⟨by simp [hcount], fun pid e' err hm => absurd hm (hw _ _ _)⟩, ?_⟩
    cases t with
    | nil => rfl
    | cons c t =>
      obtain ⟨pid, err, rfl⟩ := ht c List.mem_cons_self
      rfl

/-! ## The loop -/

variable {r : Option (List P × Listeners P)} {pre : List P}

/-- The listeners that stay: those whose pipe is not gone. -/
def stay (vs : List (P × Trace)) : List P := (vs.filter fun v => !gone v.2).map Prod.fst

omit [DecidableEq P] in
theorem stay_cons (v : P × Trace) (vs : List (P × Trace)) :
    stay (v :: vs) = if gone v.2 then stay vs else v.1 :: stay vs := by
  unfold stay
  cases hv : gone v.2 <;> simp [hv]

/-- What the loop does from the listeners `qs` on, with those of `pre` behind it: every listener has
one turn, in this order, and those stay whose pipe is not gone. It is the loop of `dispatch`. -/
structure Notified (e : EventHdr) (dat : P → Listener) (pre qs : List P) (tr : Trace)
    (vs : List (P × Trace)) (l' : Listeners P) : Prop where
  visited : vs.map Prod.fst = qs
  calls : tr = (vs.map Prod.snd).flatten
  written : ∀ v ∈ vs, OneWrite e (dat v.1) v.2
  listed : l'.Listed (pre ++ stay vs) dat
  dispatched : (dispatch e (qs.map dat)).Runs tr ((stay vs).map dat)

/-- A listener whose pipe is gone is taken off before the others have their turns. -/
theorem Notified.removed {p : P} {t : Trace} {err : Option Errno}
    {vs : List (P × Trace)} {l' : Listeners P} (halert : (alert e (dat p)).Runs t true)
    (h : Notified e dat pre qs tr vs l') :
    Notified e dat pre (p :: qs) (t ++ ⟨.unlinkFifo (dat p).pid, err⟩ :: tr)
      ((p, t ++ [⟨.unlinkFifo (dat p).pid, err⟩]) :: vs) l' := by
  obtain ⟨hone, hgone⟩ := alert_runs (t := [⟨.unlinkFifo (dat p).pid, err⟩]) halert (by simp)
  have hstay : stay ((p, t ++ [⟨.unlinkFifo (dat p).pid, err⟩]) :: vs) = stay vs := by
    rw [stay_cons, if_pos hgone]
  constructor
  · rw [List.map_cons, h.visited]
  · rw [List.map_cons, List.flatten_cons, ← h.calls]
    simp
  · exact List.forall_mem_cons.2 ⟨hone, h.written⟩
  · rw [hstay]
    exact h.listed
  · rw [hstay, List.map_cons, dispatch]
    exact halert.bind ⟨err, _, rfl, h.dispatched⟩

/-- Any other listener stays behind the loop. -/
theorem Notified.kept {p : P} {t : Trace} {vs : List (P × Trace)} {l' : Listeners P}
    (halert : (alert e (dat p)).Runs t false) (h : Notified e dat (pre ++ [p]) qs tr vs l') :
    Notified e dat pre (p :: qs) (t ++ tr) ((p, t) :: vs) l' := by
  obtain ⟨hone, hgone⟩ := alert_runs (t := []) halert (by simp)
  rw [List.append_nil] at hone hgone
  have hstay : stay ((p, t) :: vs) = p :: stay vs := by
    rw [stay_cons, if_neg (by simp [hgone])]
  constructor
  · rw [List.map_cons, h.visited]
  · rw [List.map_cons, List.flatten_cons, ← h.calls]
  · exact List.forall_mem_cons.2 ⟨hone, h.written⟩
  · rw [hstay]
    simpa using h.listed
  · rw [hstay, List.map_cons, dispatch]
    exact halert.bind (runs_bind_pure.2 ⟨_, h.dispatched, rfl⟩)

theorem notify_nil (n : ℕ) : notify e n none l = pure (some ([], l)) := by
  cases n <;> rfl

/-- **The loop of `handle_event`.** -/
theorem notify_runs (h : l.Listed (pre ++ qs) dat) (hn : qs.length ≤ n)
    (hr : (notify e n qs.head? l).Runs tr r) :
    ∃ vs l', r = some (qs, l') ∧ Notified e dat pre qs tr vs l' := by
  induction qs generalizing pre l n tr r with
  | nil =>
    rw [List.head?_nil, notify_nil] at hr
    obtain ⟨rfl, rfl⟩ := hr
    exact ⟨[], l, rfl, rfl, rfl, by simp, h, rfl, rfl⟩
  | cons p qs ih =>
    obtain ⟨m, rfl⟩ : ∃ m, n = m + 1 := Nat.exists_eq_succ_of_ne_zero (by simp at hn; omega)
    have hn : qs.length ≤ m := by simpa using hn
    obtain ⟨c, hc⟩ := Option.isSome_iff_exists.1 (h.isSome.2 (by simp : p ∈ pre ++ p :: qs))
    have hnext : c.next = qs.head? := h.next (List.suffix_append pre _) hc
    have hlist : c.listener = dat p := h.listener p c hc
    rw [List.head?_cons, notify, hc] at hr
    obtain ⟨t₁, _, ghost, rfl, halert, hr⟩ := runs_bind.1 hr
    rw [hlist] at halert
    cases ghost with
    | true =>
      obtain ⟨_, _, l₁, rfl, hfree, hr⟩ := runs_bind.1 hr
      simp only [removeListener, hc, perform_bind, runs_call] at hfree
      obtain ⟨err, _, rfl, rfl, rfl⟩ := hfree
      rw [hnext] at hr
      obtain ⟨r', hrest, rfl⟩ := runs_bind_pure.1 hr
      have hp : p ∉ pre := fun hp => List.disjoint_of_nodup_append h.nodup hp List.mem_cons_self
      have hl : (l.without p c).Listed (pre ++ qs) dat := by
        have hl := h.without hc
        rwa [List.erase_append_right _ hp, List.erase_cons_head] at hl
      obtain ⟨vs, l', rfl, hvs⟩ := ih hl hn hrest
      rw [hlist]
      exact ⟨_, l', rfl, hvs.removed halert⟩
    | false =>
      obtain ⟨_, _, l₁, rfl, hfree, hr⟩ := runs_bind.1 hr
      obtain ⟨rfl, rfl⟩ := hfree
      rw [hnext] at hr
      obtain ⟨r', hrest, rfl⟩ := runs_bind_pure.1 hr
      have hl : l.Listed ((pre ++ [p]) ++ qs) dat := by simpa using h
      obtain ⟨vs, l', rfl, hvs⟩ := ih hl hn hrest
      exact ⟨_, l', rfl, hvs.kept halert⟩

/-- **The listeners of an event.** `handle_event` comes to every listener once, in the order of the
list, writes to each at most once and only if it waits for the event, and leaves in the list, in
their order, those whose pipe is not gone. -/
theorem handleEvent_listeners (h : l.Listed ps dat) (hn : ps.length ≤ n)
    (hr : (handleEventAt e n l).Runs tr r) :
    ∃ t₀ t₁ vs l', tr = t₀ ++ t₁ ∧ (∃ err, (acknowledge e).Runs t₀ err) ∧ r = some (ps, l') ∧
      Notified e dat [] ps t₁ vs l' := by
  obtain ⟨t₀, t₁, err, rfl, hack, hr⟩ := runs_bind.1 hr
  rw [h.head] at hr
  have hall : l.Listed ([] ++ ps) dat := h
  obtain ⟨vs, l', rfl, hvs⟩ := notify_runs hall hn hr
  exact ⟨t₀, t₁, vs, l', rfl, ⟨err, hack⟩, rfl, hvs⟩

/-- The listeners of the processes 10 and 20. -/
def Listeners.two : Listeners ℕ := (Listeners.empty.push 1 ⟨20, 0, 8⟩).push 0 ⟨10, 0, 8⟩

/-- Process 10 is gone, and process 20 gets the event. -/
def traceTwo : Trace :=
  [⟨.openFifo 10, some .enxio⟩, ⟨.unlinkFifo 10, none⟩, ⟨.openFifo 20, none⟩,
    ⟨.writeFifo 20 ⟨8, 0⟩, none⟩, ⟨.closeFifo 20, none⟩]

theorem handleEvent_listeners_two :
    ∃ r dat, Listeners.two.Listed [0, 1] dat ∧
      (handleEventAt ⟨8, 0⟩ 2 Listeners.two).Runs traceTwo r ∧ ∃ t₀ t₁ vs l',
        traceTwo = t₀ ++ t₁ ∧ (∃ err, (acknowledge ⟨8, 0⟩).Runs t₀ err) ∧
        r = some ([0, 1], l') ∧ Notified ⟨8, 0⟩ dat [] [0, 1] t₁ vs l' := by
  have h := ((Listeners.Listed.empty fun _ : ℕ => (⟨0, 0, 0⟩ : Listener)).push (p := 1) rfl
    ⟨20, 0, 8⟩).push (p := 0) rfl ⟨10, 0, 8⟩
  have hr : (handleEventAt ⟨8, 0⟩ 2 Listeners.two).Runs traceTwo _ :=
    ⟨_, _, rfl, _, _, rfl, _, _, rfl, _, _, rfl, _, _, rfl, rfl, rfl⟩
  exact ⟨_, _, h, hr, handleEvent_listeners h (by decide) hr⟩

/-- The list in memory stands for the list of `handleEvent`. -/
theorem handleEventAt_refines (h : l.Listed ps dat) (hn : ps.length ≤ n)
    (hr : (handleEventAt e n l).Runs tr r) :
    ∃ qs l', r = some (ps, l') ∧ l'.Listed qs dat ∧
      (handleEvent e (ps.map dat)).Runs tr (0, qs.map dat) := by
  obtain ⟨t₀, t₁, err, rfl, hack, hr⟩ := runs_bind.1 hr
  rw [h.head] at hr
  have hall : l.Listed ([] ++ ps) dat := h
  obtain ⟨vs, l', rfl, hvs⟩ := notify_runs hall hn hr
  exact ⟨stay vs, l', rfl, hvs.listed,
    hack.bind (runs_bind_pure.2 ⟨_, hvs.dispatched, rfl⟩)⟩

end

end LiberaDaq.Eventd
