import LiberaDaq.Eventd.Dispatch

/-!
# The mask of the event device

The daemon tells the event device which events it wants: those of its own initial mask and those of
its listeners. Every request ends by setting the mask anew (`handleRequest_mask`). The other way
off the list does not: a listener whose FIFO turns out to be gone is taken off while an event is
dispatched, and the mask stays as it was. The mask and the list agree all the time as long as what
such a listener waited for is waited for by somebody else (`mask_agrees`).
-/

namespace LiberaDaq.Eventd

open LiberaDaq.Interaction LiberaDaq.Cspi Prog

variable {e : EventHdr} {r : EventRequest} {ls ls' : List Listener} {w : World}

/-- The mask waits for an event of the number `i`. -/
theorem maskOf_bit (ls : List Listener) (i : ℕ) : (maskOf ls).getLsbD i = true ↔
    initMask.getLsbD i = true ∨ ∃ q ∈ ls, q.mask.getLsbD i = true := by
  have hfold : ∀ m : Word, (ls.foldl (fun mask q => mask ||| q.mask) m).getLsbD i = true ↔
      m.getLsbD i = true ∨ ∃ q ∈ ls, q.mask.getLsbD i = true := by
    induction ls with
    | nil => simp
    | cons q ls ih =>
      intro m
      rw [List.foldl_cons, ih, BitVec.getLsbD_or, Bool.or_eq_true, or_assoc]
      simp
  exact hfold initMask

/-- Two lists in which every event that a listener waits for is waited for in both. -/
theorem maskOf_congr (h : ∀ q ∈ ls, ∀ i, q.mask.getLsbD i = true →
      initMask.getLsbD i = true ∨ ∃ q' ∈ ls', q'.mask.getLsbD i = true)
    (h' : ∀ q ∈ ls', q ∈ ls) : maskOf ls' = maskOf ls := by
  apply BitVec.eq_of_getLsbD_eq
  intro i _
  rw [Bool.eq_iff_iff, maskOf_bit, maskOf_bit]
  constructor
  · rintro (hi | ⟨q, hq, hi⟩)
    · exact .inl hi
    · exact .inr ⟨q, h' q hq, hi⟩
  · rintro (hi | ⟨q, hq, hi⟩)
    · exact .inl hi
    · exact h q hq i hi

/-! ## Requests -/

/-- The mask of the device is that of the list. -/
def Agrees (v : List Listener × World) : Prop := v.2.mask = maskOf v.1

theorem handleRequest_mask (h : Agrees (ls, w)) :
    (handleRequest r ls).wlp serve (fun x w' => Agrees (x.2, w')) w := by
  refine wlp_perform_bind.2 fun err w' hw => ?_
  obtain rfl : w' = w := hw
  split
  · exact h
  · refine wlp_seq (wlp_of_ensures (ensures_true _)) fun ls' v _ => ?_
    refine wlp_perform_bind.2 fun err v' hv => ?_
    obtain ⟨-, rfl⟩ := hv
    exact rfl

/-! ## Lives -/

/-- Whatever a listener waits for whose FIFO is found to be gone is also waited for by the daemon
itself or by a listener that stays. -/
def DropsCovered (m : DaemonMove World) : Prop :=
  ∀ e, m.op = .event e → ∀ q ∈ m.before.1, q.wants e = true → FoundGone m.events q.pid →
    ∀ i, q.mask.getLsbD i = true → initMask.getLsbD i = true ∨
      ∃ q' ∈ m.before.1, ¬(q'.wants e = true ∧ FoundGone m.events q'.pid) ∧
        q'.mask.getLsbD i = true

/-- An event leaves the mask of the device alone, and takes off only listeners whose FIFO is
gone. -/
theorem event_mask {rc : ℤ} {t : Trace} {w' : World}
    (hm : Move.ServedBy step serve ⟨.event e, (ls, w), t, rc, (ls', w')⟩) :
    w'.mask = w.mask ∧ (∀ q ∈ ls', q ∈ ls) ∧
      ∀ q ∈ ls, q ∈ ls' ∨ q.wants e = true ∧ FoundGone t q.pid := by
  refine hm.of_wlp_record (Q := fun x v => v.1.mask = w.mask ∧ (∀ q ∈ x.2, q ∈ ls) ∧
    ∀ q ∈ ls, q ∈ x.2 ∨ q.wants e = true ∧ FoundGone v.2 q.pid) ?_
  refine wlp_perform_bind.2 fun _ v₁ h₁ => ?_
  have hmask₁ : v₁.1.mask = w.mask := by rw [show v₁.1 = _ from h₁.1]
  refine wlp_seq acknowledge_alerted fun _ v₂ h₂ => wlp_seq dispatch_spec fun ls' v₃ h₃ => ?_
  exact ⟨(h₃.alerted.mask.trans h₂.1.mask).trans hmask₁, h₃.sub, h₃.gone⟩

theorem move_agrees {m : DaemonMove World} (hm : m.ServedBy step serve) (h : Agrees m.before)
    (hc : DropsCovered m) : Agrees m.after := by
  obtain ⟨op, ⟨ls, w⟩, t, rc, ⟨ls', w'⟩⟩ := m
  cases op with
  | request r => exact hm.of_wlp (handleRequest_mask h)
  | event e =>
    obtain ⟨hmask, hsub, hrest⟩ := event_mask hm
    have hlists : maskOf ls' = maskOf ls := by
      refine maskOf_congr (fun q hq i hi => ?_) hsub
      by_cases hq' : q ∈ ls'
      · exact .inr ⟨q, hq', hi⟩
      · obtain ⟨hwant, hgone⟩ := (hrest q hq).resolve_left hq'
        refine (hc e rfl q hq hwant hgone i hi).imp_right fun ⟨q', hq', hstay, hi'⟩ => ?_
        exact ⟨q', (hrest q' hq').resolve_right hstay, hi'⟩
    exact (hmask.trans h).trans hlists.symm

/-- **The mask agrees with the list** in every state of every life of the daemon in which what a
dropped listener waited for is waited for by somebody else. -/
theorem mask_agrees {ms : List (DaemonMove World)} {v : List Listener × World} (hw : w.Initial)
    (h : Life ([], w) ms v) (hms : ∀ m ∈ ms, DropsCovered m) : Agrees v := by
  refine (h.rule (P := fun _ => True) (fun m hm hb hc => ⟨trivial, move_agrees hm hb hc⟩) ?_
    hw.mask hms).2
  intro s u u' hu hd
  cases hd <;> exact hu

/-- A process becomes a listener, ends, and is found to be gone at the next event. -/
theorem mask_stale : ¬∀ (w : World) (ms : List (DaemonMove World)) (v : List Listener × World),
    w.Initial → Life ([], w) ms v → Agrees v := by
  intro h
  have hstart : Life ([], World.single 7) [] ([], World.single 7) := .nil _
  have hjoined := hstart.exec generous_serves (.request ⟨7, 1, 4⟩) rfl
  have hended := hjoined.drift (.disconnect _ 7)
  have hdropped := hended.exec generous_serves (.event ⟨4, 0⟩) rfl
  have hmask : (28 : Word) = 24 := h _ _ _ (World.single_initial 7) hdropped
  exact absurd hmask (by decide)

/-- Agreement in the life of a daemon whose listener gets its event. -/
theorem mask_agrees_delivered : ∃ ms v, Life ([], World.single 7) ms v ∧
    ms.map Move.op = [.request ⟨7, 1, 4⟩, .event ⟨4, 0⟩] ∧ Agrees v := by
  have hstart : Life ([], World.single 7) [] ([], World.single 7) := .nil _
  have hjoined := hstart.exec generous_serves (.request ⟨7, 1, 4⟩) rfl
  have hheard := hjoined.exec generous_serves (.event ⟨4, 0⟩) rfl
  refine ⟨_, _, hheard, rfl, mask_agrees (World.single_initial 7) hheard fun m hm => ?_⟩
  rcases List.mem_append.1 hm with hm | hm
  · obtain rfl := List.mem_singleton.1 hm
    exact fun _ he => nomatch he
  · obtain rfl := List.mem_singleton.1 hm
    rintro e - q - - hgone
    have hgone : FoundGone [⟨.readEvent ⟨4, 0⟩, ()⟩, ⟨.openFifo 7, none⟩,
      ⟨.writeFifo 7 ⟨4, 0⟩, none⟩, ⟨.closeFifo 7, none⟩] q.pid := hgone
    simp [FoundGone] at hgone

end LiberaDaq.Eventd
