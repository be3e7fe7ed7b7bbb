import LiberaDaq.Dd.DmaEngine

/-!
# The controller and its interrupt

What the DMA controller and the interrupt handler do to the ring, whatever the reader does in
between. A command is always one that fits (`Flow`): it is not empty, and there is linear space and
space in the ring for it. In a transfer the ring holds the atoms that come next, and behind it stand
those that the controller has moved (`Ringed`). One step of the two keeps both (`Passed`).
-/

namespace LiberaDaq.Dd

open LiberaDaq.Cspi LiberaDaq.Memory

/-! ## Commands that fit -/

/-- A command of `csize` atoms fits. -/
structure Dma.Fits (d : Dma) : Prop where
  pos : 0 < d.csize
  rest : d.csize ≤ d.remaining
  tail : d.csize ≤ d.tail
  space : d.csize ≤ d.space

theorem Dma.Fits.of_restricted {d : Dma} (h : d.Restricted) (hpos : 0 < d.csize) : d.Fits :=
  ⟨hpos, h.remaining, h.tail, h.space⟩

theorem Dma.Fits.end_le {d : Dma} (h : d.Fits) : d.put + d.csize.toNat ≤ dmaFifoAtoms := by
  have hput := d.put_lt
  have htail := h.tail
  simp only [Dma.tail] at htail
  omega

theorem Dma.Fits.len_lt {d : Dma} (h : d.Fits) : d.len + d.csize.toNat < dmaFifoAtoms := by
  have hpos := h.pos
  have hspace := h.space
  simp only [Dma.space] at hspace
  omega

/-- The cell behind the ring, at a distance for which there is space, is not in the ring. -/
theorem Dma.cell_outside {d : Dma} {m : ℕ} (h : d.len + m < dmaFifoAtoms)
    (ht : d.put + m < dmaFifoAtoms) {k : ℕ} (hk : k < d.len) :
    (d.get + k) % dmaFifoAtoms ≠ d.put + m := by
  intro heq
  have hmod : (d.get + k) % dmaFifoAtoms = (d.get + (d.len + m)) % dmaFifoAtoms := by
    rw [heq, ← Nat.add_assoc, ← Nat.mod_add_mod, d.put_eq, Nat.mod_eq_of_lt ht]
  have hkm := add_mod_inj (by omega) h hmod
  omega

namespace Engine

variable {s s' : Engine} {status : Word}

/-- The controller has nothing to do. -/
structure Halted (s : Engine) : Prop where
  transfer : s.dma.dmacTransfer = false
  command : s.command = none
  endIntr : s.endIntr = false

/-- The controller has moved `m` atoms of a command that fits. -/
structure Moving (s : Engine) (m : ℕ) : Prop where
  fits : s.dma.Fits
  transfer : s.dma.dmacTransfer = true
  le : m ≤ s.dma.csize.toNat
  command : s.command = some ⟨s.dma.put + m, s.dma.csize.toNat - m⟩
  endIntr : s.endIntr = false

/-- A command that fits is done, and its interrupt is raised. -/
structure Ended (s : Engine) : Prop where
  fits : s.dma.Fits
  transfer : s.dma.dmacTransfer = true
  command : s.command = none
  endIntr : s.endIntr = true

/-- The controller works on commands that fit. -/
structure Flow (s : Engine) : Prop where
  nonneg : 0 ≤ s.dma.remaining
  dmac : Halted s ∨ (∃ m, Moving s m) ∨ Ended s

/-- The atoms behind the ring that the controller has moved. -/
def moved (s : Engine) : ℕ :=
  match s.command with
  | some c => c.target - s.dma.put
  | none => if s.endIntr then s.dma.csize.toNat else 0

theorem Halted.moved (h : Halted s) : s.moved = 0 := by
  simp [Engine.moved, h.command, h.endIntr]

theorem Moving.moved {m : ℕ} (h : Moving s m) : s.moved = m := by
  simp [Engine.moved, h.command]

theorem Ended.moved (h : Ended s) : s.moved = s.dma.csize.toNat := by
  simp [Engine.moved, h.command, h.endIntr]

/-- The ring holds the atoms that come after those that were taken, behind it stand those that the
controller has moved, and the rest is still to come. -/
structure Ringed (s : Engine) : Prop where
  remaining : s.dma.remaining = s.atomCount - (s.taken + s.dma.len : ℕ)
  le : s.taken + s.dma.len ≤ s.atomCount
  cells : ringSlice s.dma.buf dmaFifoAtoms s.dma.get s.dma.len =
    stream s.request s.taken s.dma.len
  delivered : s.delivered = s.taken + s.dma.len + s.moved
  block : ∀ j < s.moved, s.dma.buf (s.dma.put + j) = ⟨s.request, s.taken + s.dma.len + j⟩

/-- While no transfer is under way for the driver, the controller has nothing to do. -/
theorem Flow.halted (h : Flow s) (ht : s.dma.dmacTransfer = false) : Halted s := by
  rcases h.dmac with hh | ⟨m, hm⟩ | he
  · exact hh
  · rw [hm.transfer] at ht
    cases ht
  · rw [he.transfer] at ht
    cases ht

/-- A controller without a command and an interrupt has nothing to do. -/
theorem Flow.halted_of_none (h : Flow s) (hc : s.command = none) (hi : s.endIntr = false) :
    Halted s := by
  rcases h.dmac with hh | ⟨m, hm⟩ | he
  · exact hh
  · rw [hm.command] at hc
    cases hc
  · rw [he.endIntr] at hi
    cases hi

/-- When nothing remains, the controller has nothing to do. -/
theorem Flow.halted_of_done (h : Flow s) (hr : s.dma.remaining = 0) : Halted s := by
  have hno : ¬s.dma.Fits := fun hf => by
    have hpos := hf.pos
    have hrest := hf.rest
    omega
  rcases h.dmac with hh | ⟨m, hm⟩ | he
  · exact hh
  · exact absurd hm.fits hno
  · exact absurd he.fits hno

/-- A command writes behind the ring, up to the end of the buffer at most. -/
theorem Flow.target (h : Flow s) {c : DmaCommand} (hc : s.command = some c) :
    c.target + c.left ≤ dmaFifoAtoms ∧
      ∀ i < c.left, ∀ k < s.dma.len, (s.dma.get + k) % dmaFifoAtoms ≠ c.target + i := by
  rcases h.dmac with hh | ⟨m, hm⟩ | he
  · rw [hh.command] at hc
    cases hc
  · obtain rfl := Option.some.inj (hm.command.symm.trans hc)
    have hle := hm.le
    have hend := hm.fits.end_le
    have hlen := hm.fits.len_lt
    refine ⟨by dsimp only; omega, fun i hi k hk => ?_⟩
    dsimp only at hi ⊢
    rw [Nat.add_assoc]
    exact Dma.cell_outside (by omega) (by omega) hk
  · rw [he.command] at hc
    cases hc

/-! ## What the steps do -/

/-- An atom is moved behind the ring. -/
theorem dmaMove_cases (h : Flow s) (hs : s.dmaMove = some s') :
    ∃ m, Moving s m ∧ m < s.dma.csize.toNat ∧ s' = { s with
      dma := { s.dma with
        buf := Function.update s.dma.buf (s.dma.put + m) ⟨s.request, s.delivered⟩ }
      command := some ⟨s.dma.put + (m + 1), s.dma.csize.toNat - (m + 1)⟩
      delivered := s.delivered + 1 } := by
  unfold dmaMove at hs
  split at hs
  · next target left hcommand =>
    rcases h.dmac with hh | ⟨m, hm⟩ | he
    · rw [hh.command] at hcommand
      cases hcommand
    · obtain ⟨rfl, hleft⟩ := DmaCommand.mk.inj (Option.some.inj (hm.command.symm.trans hcommand))
      obtain rfl : left = s.dma.csize.toNat - (m + 1) := by omega
      exact ⟨m, hm, by omega, (Option.some.inj hs).symm⟩
    · rw [he.command] at hcommand
      cases hcommand
  · cases hs

/-- A command ends when all its atoms are moved. -/
theorem dmaEnd_cases (h : Flow s) (hs : s.dmaEnd = some s') :
    Moving s s.dma.csize.toNat ∧ s' = { s with command := none, endIntr := true } := by
  unfold dmaEnd at hs
  split at hs
  · next target hcommand =>
    rcases h.dmac with hh | ⟨m, hm⟩ | he
    · rw [hh.command] at hcommand
      cases hcommand
    · obtain ⟨-, hleft⟩ := DmaCommand.mk.inj (Option.some.inj (hm.command.symm.trans hcommand))
      have hle := hm.le
      obtain rfl : m = s.dma.csize.toNat := by omega
      exact ⟨hm, (Option.some.inj hs).symm⟩
    · rw [he.command] at hcommand
      cases hcommand
  · cases hs

/-- The engine when the handler has put a block. -/
def handled (s : Engine) (status : Word) : Engine :=
  { s with
    dma := ({ s.dma.refresh status with
      remaining := s.dma.remaining - s.dma.csize }.moveTo s.dma.csize.toNat).getDmacCsize
    endIntr := false }

/-- The handler puts the block, and goes on. -/
theorem interrupt_cases (h : Flow s) (hs : s.interrupt status = some s') :
    Ended s ∧ s' = (s.handled status).renew := by
  unfold interrupt at hs
  split at hs
  · next hend =>
    rcases h.dmac with hh | ⟨m, hm⟩ | he
    · rw [hh.endIntr] at hend
      cases hend
    · rw [hm.endIntr] at hend
      cases hend
    · have hpos := he.fits.pos
      let d : Dma := { s.dma.refresh status with remaining := s.dma.remaining - s.dma.csize }
      have hput : d.putTo s.dma.csize.toNat = (0, d.moveTo s.dma.csize.toNat) :=
        Dma.putTo_of_space he.fits.len_lt (by omega)
      have hs' : some ({ s with
          dma := (d.putTo s.dma.csize.toNat).2.getDmacCsize
          endIntr := false
          overflowed := s.overflowed || decide ((d.putTo s.dma.csize.toNat).1 < 0) } :
          Engine).renew = some s' := hs
      simp only [hput, lt_irrefl, decide_false, Bool.or_false] at hs'
      exact ⟨he, (Option.some.inj hs').symm⟩
  · cases hs

/-! ## What the steps keep -/

theorem moved_issue : s.issue.moved = 0 := by simp [moved, issue]

/-- A command of the size that was chosen fits. -/
theorem flow_issue (hf : s.dma.Fits) (hi : s.endIntr = false) : Flow s.issue := by
  have hpos := hf.pos
  have hrest := hf.rest
  refine ⟨show 0 ≤ s.dma.remaining by omega, .inr (.inl ⟨0, ?_⟩)⟩
  exact ⟨⟨hf.pos, hf.rest, hf.tail, hf.space⟩, rfl, Nat.zero_le _, rfl, hi⟩

theorem flow_renew (hr : s.dma.Restricted) (hn : 0 ≤ s.dma.remaining) (hc : s.command = none)
    (hi : s.endIntr = false) : Flow s.renew := by
  unfold renew
  split
  · next hpos => exact flow_issue (Dma.Fits.of_restricted hr hpos) hi
  · exact ⟨hn, .inl ⟨rfl, hc, hi⟩⟩

theorem Ringed.issue (h : Ringed s) (hm : s.moved = 0) : Ringed s.issue where
  remaining := h.remaining
  le := h.le
  cells := h.cells
  delivered := by
    rw [moved_issue, ← hm]
    exact h.delivered
  block := fun j hj => by
    rw [moved_issue] at hj
    cases hj

theorem Ringed.renew (h : Ringed s) (hc : s.command = none) (hi : s.endIntr = false) :
    Ringed s.renew := by
  have hm : s.moved = 0 := by simp [moved, hc, hi]
  unfold Engine.renew
  split
  · exact h.issue hm
  · have hm' : moved { s with dma := { s.dma with dmacTransfer := false } } = 0 := by
      simp [moved, hc, hi]
    exact ⟨h.remaining, h.le, h.cells, by rw [hm', ← hm]; exact h.delivered, fun j hj => by
      rw [hm'] at hj
      cases hj⟩

/-- The ring with the block behind it. -/
theorem slice_block {d : Dma} {m : ℕ} (h : d.put + m ≤ dmaFifoAtoms) :
    ringSlice d.buf dmaFifoAtoms (d.get + d.len) m =
      (List.range m).map fun j => d.buf (d.put + j) := by
  apply List.map_congr_left
  intro j hj
  have hjm := List.mem_range.1 hj
  rw [← Nat.mod_add_mod, d.put_eq, Nat.mod_eq_of_lt (by omega)]

/-- The handler takes the block into the ring. -/
theorem Ringed.handled (h : Ringed s) (he : Ended s) : Ringed (s.handled status) := by
  have hpos := he.fits.pos
  have hrest := he.fits.rest
  have hmoved : s.moved = s.dma.csize.toNat := he.moved
  have hmoved' : (s.handled status).moved = 0 := by simp [moved, Engine.handled, he.command]
  have hlen : (s.handled status).dma.len = s.dma.len + s.dma.csize.toNat :=
    Dma.len_moveTo he.fits.len_lt
  have hremaining : (s.handled status).dma.remaining = s.dma.remaining - s.dma.csize := rfl
  have hcount : (s.handled status).atomCount = s.atomCount := rfl
  have htaken : (s.handled status).taken = s.taken := rfl
  have hrem := h.remaining
  refine ⟨?_, ?_, ?_, ?_, fun j hj => ?_⟩
  · rw [hremaining, hcount, htaken, hlen]
    omega
  · rw [hcount, htaken, hlen]
    omega
  · rw [hlen, htaken, stream_add]
    refine ringSlice_add.trans ?_
    congr 1
    · exact h.cells
    · refine (slice_block (d := s.dma) he.fits.end_le).trans ?_
      apply List.map_congr_left
      intro j hj
      exact h.block j (hmoved ▸ List.mem_range.1 hj)
  · rw [hmoved', hlen, htaken, ← hmoved, ← Nat.add_assoc]
    exact h.delivered
  · rw [hmoved'] at hj
    cases hj

/-- The commands of a step are good ones. -/
def Commands (s s' : Engine) : Prop :=
  ∀ d ∈ s'.issued, d ∈ s.issued ∨ 0 < d.csize ∧ d.Restricted

theorem Commands.of_eq (h : s'.issued = s.issued) : Commands s s' := fun _ hd => .inl (h ▸ hd)

theorem commands_issue (hr : s.dma.Restricted) (hpos : 0 < s.dma.csize) : Commands s s.issue := by
  intro d hd
  rcases List.mem_append.1 hd with hd | hd
  · exact .inl hd
  · obtain rfl := List.mem_singleton.1 hd
    exact .inr ⟨hpos, hr⟩

theorem renew_cases : s.renew = s.issue ∨
    s.renew = { s with dma := { s.dma with dmacTransfer := false } } := by
  unfold renew
  split
  · exact .inl rfl
  · exact .inr rfl

theorem commands_renew (hr : s.dma.Restricted) : Commands s s.renew := by
  unfold renew
  split
  · next hpos => exact commands_issue hr hpos
  · exact Commands.of_eq rfl

/-- A step of the controller or the handler: what it keeps, and what it leaves to the reader. -/
structure Passed (s s' : Engine) : Prop where
  busy : ¬Halted s
  flow : Flow s'
  ringed : Ringed s → Ringed s'
  commands : Commands s s'
  overflowed : s'.overflowed = s.overflowed
  pc : s'.pc = s.pc
  atomCount : s'.atomCount = s.atomCount
  obAtoms : s'.obAtoms = s.obAtoms
  handed : s'.handed = s.handed
  taken : s'.taken = s.taken
  request : s'.request = s.request
  reports : s'.reports = s.reports
  written : s'.dma.written = s.dma.written
  len : s.dma.len ≤ s'.dma.len
  overrun : s.dma.overrun = true → s'.dma.overrun = true

theorem Moving.not_halted {m : ℕ} (h : Moving s m) : ¬Halted s := fun hh => by
  have ht := h.transfer
  rw [hh.transfer] at ht
  cases ht

theorem Ended.not_halted (h : Ended s) : ¬Halted s := fun hh => by
  have ht := h.transfer
  rw [hh.transfer] at ht
  cases ht

theorem dmaMove_passed (h : Flow s) (hs : s.dmaMove = some s') : Passed s s' := by
  obtain ⟨m, hm, hlt, heq⟩ := dmaMove_cases h hs
  have htail : s.dma.put + m < dmaFifoAtoms := lt_of_lt_of_le (by omega) hm.fits.end_le
  have hspace : s.dma.len + m < dmaFifoAtoms := lt_trans (by omega) hm.fits.len_lt
  have hmoving : Moving s' (m + 1) := by
    subst heq
    exact ⟨⟨hm.fits.pos, hm.fits.rest, hm.fits.tail, hm.fits.space⟩, hm.transfer, hlt, rfl,
      hm.endIntr⟩
  subst heq
  refine ⟨hm.not_halted, ⟨h.nonneg, .inr (.inl ⟨m + 1, hmoving⟩)⟩, fun hr => ?_, Commands.of_eq rfl,
    rfl, rfl, rfl, rfl, rfl, rfl, rfl, rfl, rfl, le_rfl, id⟩
  have hdelivered := hr.delivered
  rw [hm.moved] at hdelivered
  refine ⟨hr.remaining, hr.le, ?_, ?_, fun j hj => ?_⟩
  · refine Eq.trans ?_ hr.cells
    exact ringSlice_update_of_outside fun k hk => Dma.cell_outside hspace htail hk
  · rw [hmoving.moved]
    change s.delivered + 1 = s.taken + s.dma.len + (m + 1)
    omega
  · rw [hmoving.moved] at hj
    rcases Nat.lt_succ_iff_lt_or_eq.1 hj with hj | rfl
    · refine Eq.trans ?_ (hr.block j (hm.moved.symm ▸ hj))
      exact Function.update_of_ne (show s.dma.put + j ≠ s.dma.put + m by omega) _ _
    · refine (Function.update_self _ _ _).trans ?_
      rw [hdelivered]
      rfl

theorem dmaEnd_passed (h : Flow s) (hs : s.dmaEnd = some s') : Passed s s' := by
  obtain ⟨hm, rfl⟩ := dmaEnd_cases h hs
  have hended : Ended { s with command := none, endIntr := true } :=
    ⟨hm.fits, hm.transfer, rfl, rfl⟩
  refine ⟨hm.not_halted, ⟨h.nonneg, .inr (.inr hended)⟩, fun hr => ?_, Commands.of_eq rfl,
    rfl, rfl, rfl, rfl, rfl, rfl, rfl, rfl, rfl, le_rfl, id⟩
  refine ⟨hr.remaining, hr.le, hr.cells, ?_, fun j hj => hr.block j ?_⟩
  · rw [hended.moved]
    exact hm.moved ▸ hr.delivered
  · rw [hended.moved] at hj
    exact hm.moved.symm ▸ hj

theorem interrupt_passed (h : Flow s) (hs : s.interrupt status = some s') : Passed s s' := by
  obtain ⟨he, rfl⟩ := interrupt_cases h hs
  have hrest := he.fits.rest
  have hnonneg : 0 ≤ (s.handled status).dma.remaining :=
    show 0 ≤ s.dma.remaining - s.dma.csize by omega
  have hrestricted : (s.handled status).dma.Restricted := Dma.restricted_getDmacCsize hnonneg
  have hlen : (s.handled status).dma.len = s.dma.len + s.dma.csize.toNat :=
    Dma.len_moveTo he.fits.len_lt
  have hoverrun : s.dma.overrun = true → (s.handled status).dma.overrun = true := fun ho => by
    simp [Engine.handled, Dma.moveTo, Dma.getDmacCsize, Dma.refresh, ho]
  have hflow : Flow (s.handled status).renew := flow_renew hrestricted hnonneg he.command rfl
  have hringed : Ringed s → Ringed (s.handled status).renew := fun hr =>
    (hr.handled he).renew he.command rfl
  have hcommands : Commands s (s.handled status).renew := commands_renew hrestricted
  have hle : s.dma.len ≤ (s.handled status).dma.len := hlen ▸ Nat.le_add_right _ _
  rcases renew_cases (s := s.handled status) with heq | heq <;>
  · rw [heq] at hflow hringed hcommands ⊢
    exact ⟨he.not_halted, hflow, hringed, hcommands, rfl, rfl, rfl, rfl, rfl, rfl, rfl, rfl, rfl,
      hle,
      hoverrun⟩

end Engine

end LiberaDaq.Dd
