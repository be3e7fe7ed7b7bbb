import LiberaDaq.Eventd.World

/-!
# Dispatching an event

What the loop of `handle_event` does to the world and to the list of listeners (`dispatch_spec`):
the mask of the device stays as it is, a FIFO that can be written to can be written to afterwards, a
listener is taken off the list only if it wanted the event and its FIFO was found to be gone, and
the FIFO of a process gets the event once for each of its listeners at most, and at least once when
one of them wants it.
-/

namespace LiberaDaq.Eventd

open LiberaDaq.Interaction LiberaDaq.Cspi Prog

/-- The events of the daemon. -/
abbrev Trace := List (Event DaemonCall DaemonAns)

variable {e : EventHdr} {q : Listener} {ls ls' : List Listener} {w w' : World} {t t' : Trace}
  {v v' v'' : World × Trace} {pid : Word}

/-- The FIFO of the process was found to be gone. -/
def FoundGone (t : Trace) (pid : Word) : Prop :=
  ⟨.openFifo pid, some .enxio⟩ ∈ t ∨ ⟨.openFifo pid, some .enoent⟩ ∈ t

/-- The system did not refuse the event to a process for want of something else. -/
def Granted (e : EventHdr) (t : Trace) (pid : Word) : Prop :=
  ∀ err, Errno.otherwise (some err) →
    ⟨.openFifo pid, some err⟩ ∉ t ∧ ⟨.writeFifo pid e, some err⟩ ∉ t

/-- The event was written to the FIFO of the process. -/
def Written (e : EventHdr) (t : Trace) (pid : Word) : Prop := ⟨.writeFifo pid e, none⟩ ∈ t

/-! ## The world during a dispatch -/

/-- The device and the readers are the same, what could be written to can be written to, and there
are more events. -/
structure Alerted (v v' : World × Trace) : Prop where
  mask : v'.1.mask = v.1.mask
  serial : v'.1.serial = v.1.serial
  reader : v'.1.reader = v.1.reader
  open_of : ∀ pid, v.1.open pid = true → v'.1.open pid = true
  trace : ∃ t, v'.2 = v.2 ++ t

theorem Alerted.refl (v : World × Trace) : Alerted v v := ⟨rfl, rfl, rfl, fun _ h => h, [], by simp⟩

theorem Alerted.trans (h : Alerted v v') (h' : Alerted v' v'') : Alerted v v'' where
  mask := h'.mask.trans h.mask
  serial := h'.serial.trans h.serial
  reader := h'.reader.trans h.reader
  open_of := fun pid hp => h'.open_of pid (h.open_of pid hp)
  trace := by
    obtain ⟨t, ht⟩ := h.trace
    obtain ⟨t', ht'⟩ := h'.trace
    exact ⟨t ++ t', by rw [ht', ht, List.append_assoc]⟩

theorem Alerted.mem (h : Alerted v v') {ev : Event DaemonCall DaemonAns} (hev : ev ∈ v.2) :
    ev ∈ v'.2 := by
  obtain ⟨t, ht⟩ := h.trace
  rw [ht]
  exact List.mem_append_left t hev

theorem Alerted.foundGone (h : Alerted v v') (hg : FoundGone v.2 pid) : FoundGone v'.2 pid :=
  hg.imp h.mem h.mem

theorem Alerted.granted (h : Alerted v v') (hg : Granted e v'.2 pid) : Granted e v.2 pid :=
  fun err herr => ⟨fun hm => (hg err herr).1 (h.mem hm), fun hm => (hg err herr).2 (h.mem hm)⟩

/-- The calls of a dispatch, but for `unlink`. -/
def isAlert : DaemonCall → Bool
  | .acqPm | .openFifo _ | .writeFifo _ _ | .closeFifo _ => true
  | _ => false

theorem alerted_of_call {c : DaemonCall} {x : DaemonAns c} (hc : isAlert c = true)
    (h : record serve c x v v') : Alerted v v' := by
  obtain ⟨hw, ht⟩ := h
  have hworld : v'.1 = v.1 ∨ ∃ f, v'.1 = { v.1 with fifo := f } := by
    cases c with
    | acqPm => exact .inl hw
    | openFifo pid => exact .inl hw.1
    | closeFifo pid => exact .inl hw.2
    | writeFifo pid e =>
      rw [show v'.1 = _ from hw.2]
      split
      · exact .inr ⟨_, rfl⟩
      · exact .inl rfl
    | _ => cases hc
  rcases hworld with hw | ⟨f, hw⟩
  · exact ⟨by rw [hw], by rw [hw], by rw [hw], fun _ h => by rwa [hw], _, ht⟩
  · exact ⟨by rw [hw], by rw [hw], by rw [hw], fun _ h => by rwa [hw], _, ht⟩

/-- The call writes to a FIFO. -/
def isWrite : DaemonCall → Bool
  | .writeFifo _ _ => true
  | _ => false

/-- The calls that write to no FIFO leave the FIFOs as they are. -/
theorem fifo_of_call {c : DaemonCall} {x : DaemonAns c} (hc : isWrite c = false)
    (h : serve c x w w') : w'.fifo = w.fifo := by
  cases c with
  | writeFifo pid e => cases hc
  | setMask m => rw [show w' = _ from h.2]
  | openFifo pid => exact congrArg World.fifo h.1
  | closeFifo pid => exact congrArg World.fifo h.2
  | unlinkFifo pid =>
    rw [show w' = _ from h]
    split <;> rfl
  | exit => exact x.elim
  | _ => rw [show w' = _ from h]

/-- The name of a FIFO that cannot be written to is not missed. -/
theorem alerted_of_unlink {x : Option Errno} (hp : v.1.open pid = false)
    (h : record serve (.unlinkFifo pid) x v v') : Alerted v v' := by
  obtain ⟨hw, ht⟩ := h
  have hw : v'.1 = if x = none then
      { v.1 with linked := Function.update v.1.linked pid false } else v.1 := hw
  split at hw
  · refine ⟨by rw [hw], by rw [hw], by rw [hw], fun p hopen => ?_, _, ht⟩
    by_cases hpid : p = pid
    · subst hpid
      rw [hp] at hopen
      cases hopen
    · rw [hw]
      simpa [World.open, Function.update_of_ne hpid] using hopen
  · exact ⟨by rw [hw], by rw [hw], by rw [hw], fun _ h => by rwa [hw], _, ht⟩

/-! ## One listener -/

/-- The FIFOs, with at most `n pid` copies of the event added for each process. -/
def Copied (e : EventHdr) (n : Word → ℕ) (w w' : World) : Prop :=
  ∀ pid, ∃ k ≤ n pid, w'.fifo pid = w.fifo pid ++ List.replicate k (w.serial, e)

theorem copied_of_eq {n : Word → ℕ} (h : w'.fifo = w.fifo) : Copied e n w w' :=
  fun pid => ⟨0, Nat.zero_le _, by rw [h]; simp⟩

theorem Copied.trans {n n' : Word → ℕ} {w'' : World} (h : Copied e n w w')
    (h' : Copied e n' w' w'') (hs : w'.serial = w.serial) :
    Copied e (fun pid => n pid + n' pid) w w'' := by
  intro pid
  obtain ⟨k, hk, hf⟩ := h pid
  obtain ⟨k', hk', hf'⟩ := h' pid
  refine ⟨k + k', Nat.add_le_add hk hk', ?_⟩
  rw [hf', hf, hs, List.append_assoc, List.replicate_append_replicate]

/-- The number of listeners of a process that want an event. -/
def wanting (e : EventHdr) (ls : List Listener) (pid : Word) : ℕ :=
  ls.countP fun q => q.wants e && q.pid = pid

theorem wanting_cons (e : EventHdr) (q : Listener) (ls : List Listener) (pid : Word) :
    wanting e (q :: ls) pid = wanting e [q] pid + wanting e ls pid := by
  simp only [wanting, List.countP_cons, List.countP_nil]
  omega

/-- What the body of the loop does. -/
structure AlertSpec (e : EventHdr) (q : Listener) (v : World × Trace) (ghost : Bool)
    (v' : World × Trace) : Prop where
  alerted : Alerted v v'
  copied : Copied e (wanting e [q]) v.1 v'.1
  gone : ghost = true → q.wants e = true ∧ FoundGone v'.2 q.pid ∧ v'.1.open q.pid = false
  written : q.wants e = true → v.1.open q.pid = true → Granted e v'.2 q.pid →
    Written e v'.2 q.pid

theorem signal_spec (hq : q.wants e = true) :
    (signal e q.pid).wlp (record serve) (AlertSpec e q v) v := by
  refine wlp_perform_bind.2 fun err v₁ h₁ => ?_
  have ha₁ : Alerted v v₁ := alerted_of_call rfl h₁
  have hv₁ : v₁.1 = v.1 := h₁.1.1
  have hopen := h₁.1.2
  cases err with
  | some err =>
    refine ⟨ha₁, copied_of_eq (by rw [hv₁]), fun hg => ⟨hq, ?_, ?_⟩, fun _ ho hg => ?_⟩
    · rw [FoundGone, h₁.2]
      simp only [decide_eq_true_eq] at hg
      rcases hg with rfl | rfl <;> simp
    · rw [hv₁]
      by_contra ho
      rw [if_pos (by simpa using ho)] at hopen
      simp only [decide_eq_true_eq] at hg
      rcases hg with rfl | rfl
      · exact hopen.1 rfl
      · exact hopen.2 rfl
    · rw [if_pos ho] at hopen
      refine absurd ?_ (hg err hopen).1
      rw [h₁.2]
      exact List.mem_append_right _ List.mem_cons_self
  | none =>
    refine wlp_perform_bind.2 fun err v₂ h₂ => ?_
    refine wlp_perform_bind.2 fun errno v₃ h₃ => ?_
    have ha₂ : Alerted v₁ v₂ := alerted_of_call rfl h₂
    have ha₃ : Alerted v₂ v₃ := alerted_of_call rfl h₃
    have ha : Alerted v v₃ := (ha₁.trans ha₂).trans ha₃
    have hv₃ : v₃.1 = v₂.1 := h₃.1.2
    have hev : ⟨.writeFifo q.pid e, err⟩ ∈ v₃.2 := by
      refine ha₃.mem ?_
      rw [h₂.2]
      exact List.mem_append_right _ List.mem_cons_self
    cases err with
    | none =>
      refine ⟨ha, fun pid => ?_, nofun, fun _ _ _ => hev⟩
      rw [hv₃, show v₂.1 = _ from h₂.1.2, hv₁]
      by_cases hp : q.pid = pid
      · subst hp
        exact ⟨1, by simp [wanting, hq], by simp⟩
      · exact ⟨0, Nat.zero_le _, by simp [Function.update_of_ne (Ne.symm hp)]⟩
    | some err =>
      have hv₂ : v₂.1 = v₁.1 := h₂.1.2
      have herr : Errno.otherwise (some err) := h₂.1.1
      have hclose : Errno.otherwise errno := h₃.1.1
      refine ⟨ha, copied_of_eq (by rw [hv₃, hv₂, hv₁]), fun hg => ?_, fun _ _ hg => ?_⟩
      · simp only [decide_eq_true_eq] at hg
        cases errno with
        | none =>
          rcases hg with rfl | rfl
          · exact absurd rfl herr.1
          · exact absurd rfl herr.2
        | some errno =>
          rcases hg with hg | hg
          · exact absurd (congrArg some hg) hclose.1
          · exact absurd (congrArg some hg) hclose.2
      · exact absurd hev (hg err herr).2

theorem alert_spec : (alert e q).wlp (record serve) (AlertSpec e q v) v := by
  unfold alert
  split
  · next hq => exact signal_spec hq
  · next hq =>
    exact ⟨.refl v, copied_of_eq rfl, nofun, fun hw => absurd hw hq⟩

/-! ## The list -/

/-- **What a dispatch does** to the world and to the list. -/
structure DispatchSpec (e : EventHdr) (ls : List Listener) (v : World × Trace)
    (ls' : List Listener) (v' : World × Trace) : Prop where
  alerted : Alerted v v'
  copied : Copied e (wanting e ls) v.1 v'.1
  sub : ∀ q ∈ ls', q ∈ ls
  gone : ∀ q ∈ ls, q ∈ ls' ∨ q.wants e = true ∧ FoundGone v'.2 q.pid
  written : ∀ q ∈ ls, q.wants e = true → v.1.open q.pid = true → Granted e v'.2 q.pid →
    Written e v'.2 q.pid

theorem dispatch_spec : (dispatch e ls).wlp (record serve) (DispatchSpec e ls v) v := by
  induction ls generalizing v with
  | nil => exact ⟨.refl v, copied_of_eq rfl, by simp, by simp, by simp⟩
  | cons q ls ih =>
    have hcount : wanting e (q :: ls) = fun pid => wanting e [q] pid + wanting e ls pid :=
      funext (wanting_cons e q ls)
    refine wlp_seq alert_spec fun ghost v₁ h₁ => ?_
    -- the head of the list is written to in the alert, the others in the rest of the loop
    have hwritten : ∀ {v₂ : World × Trace} {ls' v'}, Alerted v₁ v₂ → DispatchSpec e ls v₂ ls' v' →
        ∀ q' ∈ q :: ls, q'.wants e = true → v.1.open q'.pid = true → Granted e v'.2 q'.pid →
          Written e v'.2 q'.pid := by
      intro v₂ ls' v' h₂ h₃ q' hq' hwant hopen hg
      rcases List.mem_cons.1 hq' with rfl | hq'
      · have halert := h₂.trans h₃.alerted
        exact halert.mem (h₁.written hwant hopen (halert.granted hg))
      · exact h₃.written q' hq' hwant (h₂.open_of _ (h₁.alerted.open_of _ hopen)) hg
    cases ghost with
    | true =>
      obtain ⟨hwant, hgone, hclosed⟩ := h₁.gone rfl
      refine wlp_perform_bind.2 fun _ v₂ h₂ => ?_
      have ha₂ : Alerted v₁ v₂ := alerted_of_unlink hclosed h₂
      refine wlp_mono ih fun ls' v₃ h₃ => ?_
      have ha₃ := ha₂.trans h₃.alerted
      have hc₂ : Copied e (wanting e ls) v₁.1 v₃.1 := fun pid => by
        have hc := h₃.copied pid
        rwa [fifo_of_call rfl h₂.1, ha₂.serial] at hc
      refine ⟨h₁.alerted.trans ha₃, ?_, fun q' hq' => .tail _ (h₃.sub q' hq'), fun q' hq' => ?_,
        hwritten ha₂ h₃⟩
      · rw [hcount]
        exact h₁.copied.trans hc₂ h₁.alerted.serial
      · rcases List.mem_cons.1 hq' with rfl | hq'
        · exact .inr ⟨hwant, ha₃.foundGone hgone⟩
        · exact h₃.gone q' hq'
    | false =>
      refine wlp_seq ih fun ls' v₃ h₃ => ?_
      refine ⟨h₁.alerted.trans h₃.alerted, ?_, fun q' hq' => ?_, fun q' hq' => ?_,
        hwritten (.refl v₁) h₃⟩
      · rw [hcount]
        exact h₁.copied.trans h₃.copied h₁.alerted.serial
      · rcases List.mem_cons.1 hq' with rfl | hq'
        · exact List.mem_cons_self
        · exact .tail _ (h₃.sub q' hq')
      · rcases List.mem_cons.1 hq' with rfl | hq'
        · exact .inl List.mem_cons_self
        · exact (h₃.gone q' hq').imp_left (.tail _)

theorem acknowledge_alerted :
    (acknowledge e).wlp (record serve) (fun _ v' => Alerted v v' ∧ v'.1.fifo = v.1.fifo) v := by
  unfold acknowledge
  split
  · exact fun _ _ h => ⟨alerted_of_call rfl h, fifo_of_call rfl h.1⟩
  · exact ⟨.refl v, rfl⟩

end LiberaDaq.Eventd
