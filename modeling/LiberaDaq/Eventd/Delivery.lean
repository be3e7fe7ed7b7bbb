import LiberaDaq.Eventd.Dispatch

/-!
# Delivery of events

A process reads its event FIFO while it lives. The daemon delivers an event to it if the FIFO still
has its name, and the daemon itself takes names away: every listener that leaves has the FIFO of its
process unlinked, whether or not other connections of the process go on listening. Delivery is right
as long as only the last listener of a process leaves, and a process that joins afterwards has made
its FIFO again (`events_delivered`).
-/

namespace LiberaDaq.Eventd

open LiberaDaq.Interaction LiberaDaq.Cspi Prog

variable {e : EventHdr} {r : EventRequest} {ls ls' : List Listener} {w w' : World}

/-- Every listener whose process reads its FIFO has a FIFO with a name. -/
def Reachable (v : List Listener × World) : Prop :=
  ∀ q ∈ v.1, v.2.reader q.pid = true → v.2.linked q.pid = true

/-! ## Requests -/

/-- Another listener of the process stays when the one of the request is taken off. -/
def HasSibling (r : EventRequest) (ls : List Listener) : Prop :=
  ∃ q ∈ takeOff r.pid r.uid ls, q.pid = r.pid

/-- The request leaves the FIFOs of the listeners alone: a listener that leaves is the last of its
process, and one that joins has a FIFO with a name. -/
def RequestKeeps (r : EventRequest) (ls : List Listener) (w : World) : Prop :=
  w.reader r.pid = true → if (findListener r.pid r.uid ls).isSome then
    r.mask = 0 → ¬HasSibling r ls else r.mask ≠ 0 → w.linked r.pid = true

theorem updateMask_pids {pid uid mask : Word} {q : Listener} (hq : q ∈ updateMask pid uid mask ls) :
    ∃ q' ∈ ls, q'.pid = q.pid := by
  induction ls with
  | nil => cases hq
  | cons q' ls ih =>
    unfold updateMask at hq
    split at hq
    · rcases List.mem_cons.1 hq with rfl | hq
      · exact ⟨q', List.mem_cons_self, rfl⟩
      · exact ⟨q, .tail _ hq, rfl⟩
    · rcases List.mem_cons.1 hq with rfl | hq
      · exact ⟨q, List.mem_cons_self, rfl⟩
      · obtain ⟨q'', hq'', hp⟩ := ih hq
        exact ⟨q'', .tail _ hq'', hp⟩

theorem join_reachable (h : Reachable (ls, w))
    (hr : w.reader r.pid = true → (findListener r.pid r.uid ls).isSome = false →
      w.linked r.pid = true) :
    (join r ls).wlp serve (fun ls' w' => Reachable (ls', w')) w := by
  unfold join
  split
  · intro q hq hread
    obtain ⟨q', hq', hp⟩ := updateMask_pids hq
    rw [← hp] at hread ⊢
    exact h q' hq' hread
  · next hnew =>
    refine wlp_perform_bind.2 fun ok w' hw => ?_
    obtain rfl : w' = w := hw
    cases ok with
    | false => exact fun e => e.elim
    | true =>
      intro q hq hread
      rcases List.mem_cons.1 hq with rfl | hq
      · exact hr hread (by simpa using hnew)
      · exact h q hq hread

theorem leave_reachable (h : Reachable (ls, w))
    (hr : w.reader r.pid = true → (findListener r.pid r.uid ls).isSome = true →
      ¬HasSibling r ls) :
    (leave r ls).wlp serve (fun ls' w' => Reachable (ls', w')) w := by
  unfold leave
  split
  · next hfound =>
    refine wlp_perform_bind.2 fun err w' hw => ?_
    have hw : w' = if err = none then
        { w with linked := Function.update w.linked r.pid false } else w := hw
    intro q hq hread
    have hread : w.reader q.pid = true := by
      rw [hw] at hread
      split at hread <;> exact hread
    -- the FIFO of `q` is not the one that was unlinked
    have hp : q.pid ≠ r.pid := by
      intro hp
      rw [hp] at hread
      exact hr hread hfound ⟨q, hq, hp⟩
    have hlinked := h q (List.mem_of_mem_eraseP hq) hread
    change w'.linked q.pid = true
    rw [hw]
    split
    · simpa [Function.update_of_ne hp] using hlinked
    · exact hlinked
  · exact h

theorem handleRequest_reachable (h : Reachable (ls, w)) (hr : RequestKeeps r ls w) :
    (handleRequest r ls).wlp serve (fun x w' => Reachable (x.2, w')) w := by
  refine wlp_perform_bind.2 fun err w' hw => ?_
  obtain rfl : w' = w := hw
  split
  · exact h
  · have happly : (applyRequest r ls).wlp serve (fun ls' w' => Reachable (ls', w')) w' := by
      unfold applyRequest
      split
      · next hm =>
        refine join_reachable h fun hread hnew => ?_
        have hr := hr hread
        rw [if_neg (by simp [hnew])] at hr
        exact hr hm
      · next hm =>
        refine leave_reachable h fun hread hfound => ?_
        have hr := hr hread
        rw [if_pos hfound] at hr
        exact hr (by simpa using hm)
    refine wlp_seq happly fun ls' v hv => wlp_perform_bind.2 fun err v' hv' => ?_
    obtain ⟨-, rfl⟩ := hv'
    exact hv

/-! ## Lives -/

/-- The step leaves the FIFOs of the listeners alone, and in an event no process that reads its FIFO
is refused the event for want of something else. -/
def FifosKept (m : DaemonMove World) : Prop :=
  match m.op with
  | .request r => RequestKeeps r m.before.1 m.before.2
  | .event e => ∀ pid, m.before.2.reader pid = true → Granted e m.events pid

/-- The event of the step was written to the FIFO of every process that reads it and has a listener
that wants the event. -/
def Delivered (m : DaemonMove World) : Prop :=
  ∀ e, m.op = .event e → ∀ q ∈ m.before.1, q.wants e = true → m.before.2.reader q.pid = true →
    Written e m.events q.pid

theorem event_delivered {rc : ℤ} {t : Trace}
    (hm : Move.ServedBy step serve ⟨.event e, (ls, w), t, rc, (ls', w')⟩)
    (h : Reachable (ls, w)) (hg : ∀ pid, w.reader pid = true → Granted e t pid) :
    Delivered ⟨.event e, (ls, w), t, rc, (ls', w')⟩ ∧ Reachable (ls', w') := by
  refine hm.of_wlp_record (Q := fun x v => (∀ pid, w.reader pid = true → Granted e v.2 pid) →
    Delivered ⟨.event e, (ls, w), v.2, rc, (ls', w')⟩ ∧ Reachable (x.2, v.1)) ?_ hg
  refine wlp_perform_bind.2 fun _ v₁ h₁ => ?_
  have hv₁ : v₁.1 = { w with serial := w.serial + 1 } := h₁.1
  refine wlp_seq acknowledge_alerted fun _ v₂ h₂ => wlp_seq dispatch_spec fun ls' v₃ h₃ hg => ?_
  have hreader : v₂.1.reader = w.reader := by rw [h₂.1.reader, hv₁]
  have hopen : ∀ q ∈ ls, w.reader q.pid = true → v₂.1.open q.pid = true := by
    intro q hq hread
    have hlinked : w.linked q.pid = true := h q hq hread
    refine h₂.1.open_of _ ?_
    rw [hv₁]
    simp [World.open, hlinked, hread]
  constructor
  · intro e' he q hq hwant hread
    obtain rfl := DaemonOp.event.inj he
    exact h₃.written q hq hwant (hopen q hq hread) (hg q.pid hread)
  · intro q hq hread
    rw [h₃.alerted.reader, hreader] at hread
    have hq := h₃.alerted.open_of _ (hopen q (h₃.sub q hq) hread)
    simp only [World.open, Bool.and_eq_true] at hq
    exact hq.1

theorem move_delivered {m : DaemonMove World} (hm : m.ServedBy step serve)
    (h : Reachable m.before) (hk : FifosKept m) : Delivered m ∧ Reachable m.after := by
  obtain ⟨op, ⟨ls, w⟩, t, rc, ⟨ls', w'⟩⟩ := m
  cases op with
  | request r => exact ⟨fun e he => (nomatch he), hm.of_wlp (handleRequest_reachable h hk)⟩
  | event e => exact event_delivered hm h hk

/-- **Delivery.** In every life of the daemon whose steps leave the FIFOs of the listeners alone,
every event is written to the FIFO of every process that reads it and has a listener that wants the
event. -/
theorem events_delivered {ms : List (DaemonMove World)} {v : List Listener × World}
    (h : Life ([], w) ms v) (hms : ∀ m ∈ ms, FifosKept m) : ∀ m ∈ ms, Delivered m := by
  refine (h.rule (I := Reachable)
    (fun m hm hb hk => move_delivered hm hb hk) ?_ (by simp [Reachable])
    hms).1
  intro s u u' hu hd q hq hread
  cases hd with
  | make pid =>
    by_cases hp : q.pid = pid
    · simp [hp]
    · simpa [Function.update_of_ne hp] using hu q hq hread
  | connect pid hl =>
    by_cases hp : q.pid = pid
    · exact hp ▸ hl
    · exact hu q hq (by simpa [Function.update_of_ne hp] using hread)
  | read => exact hu q hq hread
  | disconnect pid =>
    by_cases hp : q.pid = pid
    · simp [hp] at hread
    · exact hu q hq (by simpa [Function.update_of_ne hp] using hread)
  | unlink pid hr =>
    by_cases hp : q.pid = pid
    · rw [← hp] at hr
      exact absurd (hread.symm.trans hr) (by simp)
    · simpa [Function.update_of_ne hp] using hu q hq hread

/-- One of two connections of a process leaves, and the other one misses the next event. -/
theorem sibling_missed : ¬∀ (w : World) (ms : List (DaemonMove World)) (v : List Listener × World),
    Life ([], w) ms v → ∀ m ∈ ms, Delivered m := by
  intro h
  have hstart : Life ([], World.single 7) [] ([], World.single 7) := .nil _
  have hjoined := (hstart.exec generous_serves (.request ⟨7, 1, 4⟩) rfl).exec generous_serves
    (.request ⟨7, 2, 4⟩) rfl
  have hleft := hjoined.exec generous_serves (.request ⟨7, 1, 0⟩) rfl
  have hmissed := hleft.exec generous_serves (.event ⟨4, 0⟩) rfl
  have hwritten := h _ _ _ hmissed _ (List.mem_append_right _ List.mem_cons_self) ⟨4, 0⟩ rfl
    ⟨7, 2, 4⟩ List.mem_cons_self rfl rfl
  have hwritten : Written ⟨4, 0⟩ [⟨.readEvent ⟨4, 0⟩, ()⟩, ⟨.openFifo 7, some .enoent⟩,
    ⟨.unlinkFifo 7, none⟩] 7 := hwritten
  simp [Written] at hwritten

/-- Delivery in the life of a daemon that has a process join and sends it an event. -/
theorem events_delivered_single : ∃ ms v, Life ([], World.single 7) ms v ∧
    ms.map Move.op = [.request ⟨7, 1, 4⟩, .event ⟨4, 0⟩] ∧ ∀ m ∈ ms, Delivered m := by
  have hstart : Life ([], World.single 7) [] ([], World.single 7) := .nil _
  have hjoined := hstart.exec generous_serves (.request ⟨7, 1, 4⟩) rfl
  have hheard := hjoined.exec generous_serves (.event ⟨4, 0⟩) rfl
  refine ⟨_, _, hheard, rfl, events_delivered hheard fun m hm => ?_⟩
  rcases List.mem_append.1 hm with hm | hm
  · obtain rfl := List.mem_singleton.1 hm
    exact fun _ _ => rfl
  · obtain rfl := List.mem_singleton.1 hm
    let t : Trace := [⟨.readEvent ⟨4, 0⟩, ()⟩, ⟨.openFifo 7, none⟩, ⟨.writeFifo 7 ⟨4, 0⟩, none⟩,
      ⟨.closeFifo 7, none⟩]
    intro pid _ err _
    have hopen : ⟨.openFifo pid, some err⟩ ∉ t := by simp [t]
    have hwrite : ⟨.writeFifo pid ⟨4, 0⟩, some err⟩ ∉ t := by simp [t]
    exact ⟨hopen, hwrite⟩

end LiberaDaq.Eventd
