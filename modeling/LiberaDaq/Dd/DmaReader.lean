import LiberaDaq.Dd.DmaRuns

/-!
# The reader of the DMA ring

What holds at each place of the reader (`At`), whatever the controller and the handler do, and from
it what holds in every state of a run (`Sound`): the commands of the controller are not empty and
keep to the five restrictions, the ring is neither overrun nor written past its end, and a reader is
handed the atoms of its own request, each once and in order.

Two things spoil it, and are left out of a run (`Calm`): an overrun that shows with an empty output
buffer before the first command, and a command of a transfer that was stopped and is still under way
when the next one starts.
-/

namespace LiberaDaq.Dd

open LiberaDaq.Cspi LiberaDaq.Memory

/-- The books of a transfer are right: the atoms that were handed to the reader are the first ones
of those that were delivered, and all that were asked for when it ended without an error and an
overrun. -/
structure Report.Right (r : Report) : Prop where
  handed : r.handed <+: stream r.request 0 r.delivered
  complete : r.error = none → r.overrun = false →
    r.delivered = r.count ∧ r.handed = stream r.request 0 r.count

namespace Engine

variable {s s' : Engine} {x : Answer} {pc : Pc} {restart : Bool} {ahead waits left : ℕ}

/-! ## The places of the reader -/

/-- A transfer is on, with `ahead` atoms counted that are still in the ring. -/
structure Active (s : Engine) (ahead : ℕ) : Prop where
  ringed : Ringed s
  obAtoms : s.obAtoms = s.taken + ahead
  written_le : s.dma.written ≤ s.obAtoms
  handed : s.handed = stream s.request 0 s.dma.written
  written_eq : s.dma.overrun = false → s.dma.written = s.obAtoms

/-- The reader waits for the output buffer, with the controller at rest. -/
structure Waiting (s : Engine) (restart : Bool) : Prop where
  active : Active s 0
  halted : Halted s
  remaining : 0 < s.dma.remaining
  empty : restart = false → s.dma.len = 0

/-- What holds at a place of the reader. -/
def At (s : Engine) : Pc → Prop
  | .idle => True
  | .requested => 0 < s.atomCount
  | .syncCheck restart _ => Waiting s restart ∧
    (restart = false → s.dma.overrun = true → ddObSize s.dma.obFifoStatus ≠ 0)
  | .syncRead restart _ => Waiting s restart ∧ (restart = false → s.dma.overrun = false)
  | .issue => Waiting s false ∧ ddObSize s.dma.obFifoStatus ≠ 0
  | .refresh => Waiting s true
  | .restart => Waiting s true ∧ (s.dma.overrun = false → ddObSize s.dma.obFifoStatus ≠ 0)
  | .copy left => Active s 0 ∧ left ≤ s.dma.len
  | .advance left => Active s 1 ∧ left < s.dma.len
  | .loopEmpty => Active s 0 ∧ s.dma.remaining = 0
  | .finish => Active s 0 ∧ (s.dma.overrun = false → s.dma.remaining = 0 ∧ s.dma.len = 0)
  | .check | .wait | .fetch | .yieldPoint | .needsStart | .loopRemaining => Active s 0

/-- What holds in a run, wherever the reader is. -/
structure Books (s : Engine) : Prop where
  flow : Flow s
  commands : ∀ d ∈ s.issued, 0 < d.csize ∧ d.Restricted
  overflowed : s.overflowed = false
  reports : ∀ r ∈ s.reports, r.Right

/-- What holds in a run. -/
structure Inv (s : Engine) : Prop extends Books s where
  here : s.At s.pc

/-! ## The controller and the handler -/

theorem Active.passed (h : Active s ahead) (hp : Passed s s') : Active s' ahead where
  ringed := hp.ringed h.ringed
  obAtoms := by rw [hp.obAtoms, hp.taken, h.obAtoms]
  written_le := by
    rw [hp.written, hp.obAtoms]
    exact h.written_le
  handed := by rw [hp.handed, hp.request, hp.written, h.handed]
  written_eq := fun ho => by
    rw [hp.written, hp.obAtoms]
    refine h.written_eq ?_
    by_contra hne
    rw [hp.overrun (Bool.eq_true_of_not_eq_false hne)] at ho
    cases ho

theorem At.passed (hf : Flow s) (h : s.At pc) (hp : Passed s s') : s'.At pc := by
  cases pc with
  | idle => trivial
  | requested =>
    rw [At, hp.atomCount]
    exact h
  | syncCheck | syncRead | issue | restart => exact absurd h.1.halted hp.busy
  | refresh => exact absurd h.halted hp.busy
  | copy | advance => exact ⟨h.1.passed hp, by have hle := h.2; have hlen := hp.len; omega⟩
  | loopEmpty => exact absurd (hf.halted_of_done h.2) hp.busy
  | finish =>
    refine ⟨h.1.passed hp, fun ho => ?_⟩
    cases hov : s.dma.overrun with
    | false => exact absurd (hf.halted_of_done (h.2 hov).1) hp.busy
    | true =>
      rw [hp.overrun hov] at ho
      cases ho
  | check | wait | fetch | yieldPoint | needsStart | loopRemaining => exact Active.passed h hp

theorem Inv.passed (h : Inv s) (hp : Passed s s') : Inv s' where
  flow := hp.flow
  here := by
    rw [hp.pc]
    exact h.here.passed h.flow hp
  commands := fun d hd => (hp.commands d hd).elim (h.commands d) id
  overflowed := hp.overflowed.trans h.overflowed
  reports := by
    rw [hp.reports]
    exact h.reports

/-! ## The steps of the reader -/

/-- What the ring and the controller are about. -/
def ringView (s : Engine) :=
  (s.dma.buf, s.dma.put, s.dma.get, s.dma.csize, s.dma.remaining, s.dma.dmacTransfer, s.command,
    s.endIntr, s.atomCount, s.taken, s.request, s.delivered)

theorem Flow.of_view (h : Flow s) (hv : s'.ringView = s.ringView) : Flow s' := by
  simp only [ringView, Prod.mk.injEq] at hv
  obtain ⟨-, hput, hget, hcsize, hremaining, htransfer, hcommand, hend, -, -, -, -⟩ := hv
  have hfits : s.dma.Fits → s'.dma.Fits := fun hf => by
    refine ⟨?_, ?_, ?_, ?_⟩
    · exact hcsize.symm ▸ hf.pos
    · exact hcsize.symm ▸ hremaining.symm ▸ hf.rest
    · rw [hcsize, Dma.tail, hput]
      exact hf.tail
    · rw [hcsize, Dma.space, Dma.len, hput, hget]
      exact hf.space
  refine ⟨hremaining.symm ▸ h.nonneg, ?_⟩
  rcases h.dmac with hh | ⟨m, hm⟩ | he
  · exact .inl ⟨htransfer.trans hh.transfer, hcommand.trans hh.command, hend.trans hh.endIntr⟩
  · refine .inr (.inl ⟨m, hfits hm.fits, htransfer.trans hm.transfer, hcsize.symm ▸ hm.le, ?_,
      hend.trans hm.endIntr⟩)
    rw [hcommand, hput, hcsize]
    exact hm.command
  · exact .inr (.inr ⟨hfits he.fits, htransfer.trans he.transfer, hcommand.trans he.command,
      hend.trans he.endIntr⟩)

theorem Halted.of_view (h : Halted s) (hv : s'.ringView = s.ringView) : Halted s' := by
  simp only [ringView, Prod.mk.injEq] at hv
  obtain ⟨-, -, -, -, -, htransfer, hcommand, hend, -, -, -, -⟩ := hv
  exact ⟨htransfer.trans h.transfer, hcommand.trans h.command, hend.trans h.endIntr⟩

theorem Ringed.of_view (h : Ringed s) (hv : s'.ringView = s.ringView) : Ringed s' := by
  simp only [ringView, Prod.mk.injEq] at hv
  obtain ⟨hbuf, hput, hget, hcsize, hremaining, -, hcommand, hend, hcount, htaken, hrequest,
    hdelivered⟩ := hv
  have hlen : s'.dma.len = s.dma.len := by rw [Dma.len, Dma.len, hput, hget]
  have hmoved : s'.moved = s.moved := by rw [moved, moved, hput, hcsize, hcommand, hend]
  refine ⟨?_, ?_, ?_, ?_, fun j hj => ?_⟩
  · rw [hremaining, hcount, htaken, hlen, h.remaining]
  · rw [hcount, htaken, hlen]
    exact h.le
  · rw [hbuf, hget, hlen, hrequest, htaken, h.cells]
  · rw [hdelivered, htaken, hlen, hmoved, h.delivered]
  · rw [hbuf, hput, hrequest, htaken, hlen]
    exact h.block j (hmoved ▸ hj)

theorem Active.of_view (h : Active s ahead) (hv : s'.ringView = s.ringView)
    (hob : s'.obAtoms = s.obAtoms) (hw : s'.dma.written = s.dma.written)
    (hh : s'.handed = s.handed) (ho : s'.dma.overrun = false → s.dma.overrun = false) :
    Active s' ahead where
  ringed := h.ringed.of_view hv
  obAtoms := by
    simp only [ringView, Prod.mk.injEq] at hv
    rw [hob, h.obAtoms, hv.2.2.2.2.2.2.2.2.2.1]
  written_le := by
    rw [hob, hw]
    exact h.written_le
  handed := by
    simp only [ringView, Prod.mk.injEq] at hv
    rw [hh, h.handed, hw, hv.2.2.2.2.2.2.2.2.2.2.1]
  written_eq := fun hov => by
    rw [hob, hw]
    exact h.written_eq (ho hov)

theorem Waiting.of_view (h : Waiting s restart) (hv : s'.ringView = s.ringView)
    (hob : s'.obAtoms = s.obAtoms) (hw : s'.dma.written = s.dma.written)
    (hh : s'.handed = s.handed) (ho : s'.dma.overrun = false → s.dma.overrun = false) :
    Waiting s' restart where
  active := h.active.of_view hv hob hw hh ho
  halted := h.halted.of_view hv
  remaining := by
    simp only [ringView, Prod.mk.injEq] at hv
    rw [hv.2.2.2.2.1]
    exact h.remaining
  empty := fun hr => by
    simp only [ringView, Prod.mk.injEq] at hv
    rw [← h.empty hr, Dma.len, Dma.len, hv.2.1, hv.2.2.1]

/-- The ring holds only what was delivered. -/
theorem Ringed.le_delivered (h : Ringed s) : s.taken + s.dma.len ≤ s.delivered := by
  rw [h.delivered]
  omega

/-- What was handed to the reader are the first atoms of those that were delivered. -/
theorem Active.isPrefix (h : Active s ahead) (ha : ahead ≤ s.dma.len) :
    s.handed <+: stream s.request 0 s.delivered := by
  have hwritten := h.written_le
  have hob := h.obAtoms
  have hdelivered := h.ringed.le_delivered
  rw [h.handed]
  exact stream_isPrefix (by omega)

/-- A step that leaves the ring and the books alone. -/
theorem Books.of_view (h : Books s) (hv : s'.ringView = s.ringView) (hi : s'.issued = s.issued)
    (ho : s'.overflowed = s.overflowed) (hr : s'.reports = s.reports) : Books s' where
  flow := h.flow.of_view hv
  commands := hi.symm ▸ h.commands
  overflowed := ho.trans h.overflowed
  reports := hr.symm ▸ h.reports

theorem Active.goto (h : Active s ahead) : Active (s.goto pc) ahead :=
  h.of_view rfl rfl rfl rfl id

theorem Waiting.goto (h : Waiting s restart) : Waiting (s.goto pc) restart :=
  h.of_view rfl rfl rfl rfl id

theorem Books.goto (h : Books s) : Books (s.goto pc) := h.of_view rfl rfl rfl rfl

/-- All is handed to the reader when nothing remains and the ring is empty. -/
theorem Active.complete (h : Active s 0) (hf : Flow s) (hr : s.dma.remaining = 0)
    (hl : s.dma.len = 0) (ho : s.dma.overrun = false) :
    s.delivered = s.atomCount ∧ s.handed = stream s.request 0 s.atomCount := by
  have hmoved := (hf.halted_of_done hr).moved
  have hrem := h.ringed.remaining
  have hdelivered := h.ringed.delivered
  have hwritten : s.dma.written = s.atomCount := by
    rw [h.written_eq ho, h.obAtoms]
    omega
  refine ⟨by omega, ?_⟩
  rw [h.handed, hwritten]

/-- A transfer ends, with right books. -/
theorem Books.finished {error : Option TransferError} (h : Books s)
    (hp : s.handed <+: stream s.request 0 s.delivered)
    (hc : error = none → s.dma.overrun = false →
      s.delivered = s.atomCount ∧ s.handed = stream s.request 0 s.atomCount) :
    Inv (s.finished error) where
  flow := h.flow.of_view rfl
  here := trivial
  commands := h.commands
  overflowed := h.overflowed
  reports := fun r hr => by
    rcases List.mem_append.1 hr with hr | hr
    · exact h.reports r hr
    · obtain rfl := List.mem_singleton.1 hr
      exact ⟨hp, hc⟩

theorem Inv.abort (h : Inv s) (ha : Active s 0) : Inv s.abort := by
  have hbooks : Books { s with dma := { s.dma with aborting := true } } :=
    h.toBooks.of_view rfl rfl rfl rfl
  exact hbooks.finished (ha.isPrefix (Nat.zero_le _)) nofun

/-- The status is read again. -/
theorem Waiting.refresh {status : Word} (h : Waiting s restart) :
    Waiting { s with dma := s.dma.refresh status } restart :=
  h.of_view rfl rfl rfl rfl fun ho => (Bool.or_eq_false_iff.1 ho).1

/-- A transfer starts, when nothing of an earlier one is under way. -/
theorem start_waiting {status : Word} (h : Halted s) (hd : s.delivered = 0)
    (hn : 0 < s.atomCount) : Waiting (s.start status) false := by
  have hhalted : Halted (s.start status) := ⟨rfl, h.command, h.endIntr⟩
  have hlen : (s.start status).dma.len = 0 := Dma.len_flush (d := s.dma)
  have hmoved := hhalted.moved
  have hremaining : (s.start status).dma.remaining = s.atomCount := rfl
  have hcount : (s.start status).atomCount = s.atomCount := rfl
  have htaken : (s.start status).taken = 0 := rfl
  refine ⟨⟨⟨?_, ?_, ?_, ?_, fun j hj => ?_⟩, rfl, le_rfl, rfl, fun _ => rfl⟩, hhalted, ?_,
    fun _ => hlen⟩
  · rw [hremaining, hcount, htaken, hlen]
    omega
  · rw [hcount, htaken, hlen]
    omega
  · rw [hlen]
    rfl
  · rw [htaken, hlen, hmoved]
    exact hd
  · rw [hmoved] at hj
    cases hj
  · rw [hremaining]
    omega

/-- The size is chosen again. -/
def choose (s : Engine) : Engine := { s with dma := s.dma.getDmacCsize }

/-- Nothing depends on the size while the controller is at rest. -/
theorem Waiting.choose (h : Waiting s restart) : Waiting s.choose restart := by
  have hhalted : Halted s.choose := ⟨h.halted.transfer, h.halted.command, h.halted.endIntr⟩
  have hr := h.active.ringed
  refine ⟨⟨⟨hr.remaining, hr.le, hr.cells, ?_, fun j hj => ?_⟩, h.active.obAtoms,
    h.active.written_le, h.active.handed, h.active.written_eq⟩, hhalted, h.remaining, h.empty⟩
  · rw [hhalted.moved, ← h.halted.moved]
    exact hr.delivered
  · rw [hhalted.moved] at hj
    cases hj

/-- A command with the size chosen again, which is positive. -/
theorem Inv.issue (h : Inv s) (hw : Waiting s restart) (hpos : 0 < s.dma.getDmacCsize.csize)
    (hpc : ∀ t, Active t 0 → t.At pc) : Inv (s.choose.issue.goto pc) := by
  have hrestricted : s.choose.dma.Restricted := Dma.restricted_getDmacCsize hw.remaining.le
  have hchoose := hw.choose
  have hflow : Flow s.choose.issue :=
    flow_issue (Dma.Fits.of_restricted hrestricted hpos) hchoose.halted.endIntr
  have hactive : Active s.choose.issue 0 :=
    ⟨hchoose.active.ringed.issue hchoose.halted.moved, hw.active.obAtoms, hw.active.written_le,
      hw.active.handed, hw.active.written_eq⟩
  have hbooks : Books s.choose.issue := by
    refine ⟨hflow, fun d hd => ?_, h.overflowed, h.reports⟩
    exact (commands_issue hrestricted hpos d hd).elim (h.commands d) id
  exact ⟨hbooks.goto, hpc _ hactive.goto⟩

/-- The reader takes an atom that it has counted. -/
theorem Inv.advance (h : Inv s) (ha : Active s 1) (hleft : left < s.dma.len) :
    Inv { s with dma := s.dma.advance, taken := s.taken + 1, pc := .copy left } := by
  let t : Engine := { s with dma := s.dma.advance, taken := s.taken + 1, pc := .copy left }
  have hlen : t.dma.len + 1 = s.dma.len := Dma.len_advance (by omega)
  have hfits : s.dma.Fits → t.dma.Fits := fun hf => by
    refine ⟨hf.pos, hf.rest, hf.tail, hf.space.trans ?_⟩
    simp only [Dma.space]
    omega
  have hflow : Flow t := by
    refine ⟨h.flow.nonneg, ?_⟩
    rcases h.flow.dmac with hh | ⟨m, hm⟩ | he
    · exact .inl ⟨hh.transfer, hh.command, hh.endIntr⟩
    · exact .inr (.inl ⟨m, hfits hm.fits, hm.transfer, hm.le, hm.command, hm.endIntr⟩)
    · exact .inr (.inr ⟨hfits he.fits, he.transfer, he.command, he.endIntr⟩)
  have hr := ha.ringed
  have hsum : t.taken + t.dma.len = s.taken + s.dma.len := by
    change s.taken + 1 + t.dma.len = _
    omega
  have hringed : Ringed t := by
    refine ⟨?_, ?_, ?_, ?_, fun j hj => ?_⟩
    · rw [hsum]
      exact hr.remaining
    · rw [hsum]
      exact hr.le
    · have hcells := hr.cells
      rw [← hlen, ringSlice_succ, stream_succ] at hcells
      have hget : t.dma.get = (s.dma.get + 1) % dmaFifoAtoms := and_dmaFifoMask _
      rw [hget, ringSlice_mod]
      exact (List.cons.inj hcells).2
    · rw [hsum]
      exact hr.delivered
    · rw [hsum]
      exact hr.block j hj
  refine ⟨⟨hflow, h.commands, h.overflowed, h.reports⟩, ⟨hringed, ?_, ha.written_le, ha.handed,
    ha.written_eq⟩, ?_⟩
  · exact ha.obAtoms
  · change left ≤ t.dma.len
    omega

/-- The atom at the front of the ring. -/
theorem Ringed.front (h : Ringed s) (hl : 0 < s.dma.len) :
    s.dma.buf s.dma.get = ⟨s.request, s.taken⟩ := by
  obtain ⟨n, hn⟩ := Nat.exists_eq_add_of_lt hl
  have hcells := h.cells
  rw [hn, Nat.zero_add, ringSlice_succ, stream_succ, Nat.mod_eq_of_lt s.dma.get_lt] at hcells
  exact (List.cons.inj hcells).1

/-- The reader copies the atom at the front of the ring, or counts it when there was an overrun. -/
theorem Inv.copyAtom (h : Inv s) (ha : Active s 0) (hleft : left < s.dma.len) :
    Inv (s.copyAtom left x) := by
  have hob := ha.obAtoms
  have hle := ha.ringed.le
  unfold Engine.copyAtom
  dsimp only
  split
  · next hcopy =>
    split
    · exact Books.finished (h.toBooks.of_view rfl rfl rfl rfl) (ha.isPrefix (Nat.zero_le _)) (by rintro ⟨⟩)
    · have hwritten := ha.written_eq hcopy.2
      refine ⟨h.toBooks.of_view rfl rfl rfl rfl, ⟨ha.ringed.of_view rfl, ?_, ?_, ?_, ?_⟩, hleft⟩
      · exact congrArg (· + 1) hob
      · exact Nat.succ_le_succ ha.written_le
      · change s.handed ++ [s.dma.buf s.dma.get] = stream s.request 0 (s.dma.written + 1)
        rw [stream_concat, ← ha.handed, ha.ringed.front (by omega), hwritten, hob, Nat.zero_add,
          Nat.add_zero]
      · exact fun _ => congrArg (· + 1) hwritten
  · next hskip =>
    have hoverrun : s.dma.overrun ≠ false := fun ho => hskip ⟨by omega, ho⟩
    refine ⟨h.toBooks.of_view rfl rfl rfl rfl, ⟨ha.ringed.of_view rfl, ?_, ?_, ha.handed, ?_⟩,
      hleft⟩
    · exact congrArg (· + 1) hob
    · exact ha.written_le.trans (Nat.le_succ _)
    · exact fun ho => absurd ho hoverrun

/-- A restart: it waits for space, stops after an overrun, or gives the next command. -/
theorem Inv.restartDma (h : Inv s) (hw : Waiting s true)
    (hob : s.dma.overrun = false → ddObSize s.dma.obFifoStatus ≠ 0) : Inv s.restartDma := by
  have hchoose := hw.choose
  have hbooks : Books s.choose :=
    ⟨⟨hw.remaining.le, .inl hchoose.halted⟩, h.commands, h.overflowed, h.reports⟩
  have hspace := s.dma.space_nonneg
  unfold Engine.restartDma
  dsimp only
  split
  · exact ⟨hbooks.goto, hchoose.active.goto⟩
  · next hgo =>
    split
    · next ho =>
      exact ⟨hbooks.goto, hchoose.active.goto, fun hno => absurd (ho.symm.trans hno) (by decide)⟩
    · next ho =>
      have hpos : 0 < s.dma.getDmacCsize.csize := by
        by_contra hno
        have hfull : s.dma.space ≠ 0 := fun hz => hgo ⟨hno, hz⟩
        exact hno (Dma.csize_pos hw.remaining (hob (Bool.eq_false_of_not_eq_true ho)) hfull)
      exact h.issue hw hpos fun _ => id

/-! ## Calm runs -/

/-- A step that is none of the two: nothing of an earlier transfer is under way, and none of its
atoms has been moved, when a transfer starts; and an overrun does not show with an empty output
buffer when the status is read for the first command. -/
def Calm (s : Engine) : Turn → Prop
  | .read x =>
    match s.pc with
    | .requested => s.command = none ∧ s.endIntr = false ∧ s.delivered = 0
    | .syncRead false waits =>
      waits ≤ maxWaits → ddObOverrun x.status = true → ddObSize x.status ≠ 0
    | _ => True
  | _ => True

instance (t : Turn) : Decidable (Calm s t) := by
  unfold Calm
  split
  · split <;> infer_instance
  · infer_instance

/-- The status is read in `libera_OB_fifo_sync`. -/
theorem Inv.syncRead (h : Inv s) (hw : Waiting s restart)
    (ho : restart = false → s.dma.overrun = false)
    (hc : restart = false → waits ≤ maxWaits → ddObOverrun x.status = true →
      ddObSize x.status ≠ 0) :
    Inv (if maxWaits < waits then
        { s with dma := s.dma.refresh x.status }.finished (some .io)
      else { s with dma := s.dma.refresh x.status }.goto (.syncCheck restart (waits + 1))) := by
  have hrefresh : Waiting { s with dma := s.dma.refresh x.status } restart := hw.refresh
  have hbooks : Books { s with dma := s.dma.refresh x.status } := h.toBooks.of_view rfl rfl rfl rfl
  split
  · exact hbooks.finished (hrefresh.active.isPrefix (Nat.zero_le _)) nofun
  · next hwaits =>
    refine ⟨hbooks.goto, hrefresh.goto, fun hr hov => ?_⟩
    have hstatus : (s.dma.overrun || ddObOverrun x.status) = true := hov
    rw [ho hr, Bool.false_or] at hstatus
    exact hc hr (not_lt.1 hwaits) hstatus

/-- The condition of `libera_OB_fifo_sync`. -/
theorem Inv.syncCheck (h : Inv s) (hw : Waiting s restart)
    (ho : restart = false → s.dma.overrun = true → ddObSize s.dma.obFifoStatus ≠ 0) :
    Inv (if s.noData then s.goto (.syncRead restart waits)
      else s.goto (if restart then .restart else .issue)) := by
  have hremaining := hw.remaining.ne'
  split
  · next hdata =>
    simp only [noData, Bool.and_eq_true, Bool.not_eq_true'] at hdata
    exact ⟨h.toBooks.goto, hw.goto, fun _ => hdata.2⟩
  · next hdata =>
    have hob : s.dma.overrun = false → ddObSize s.dma.obFifoStatus ≠ 0 := fun hov hz =>
      hdata (by simp [noData, hremaining, hov, hz])
    refine ⟨h.toBooks.goto, ?_⟩
    cases restart with
    | true => exact ⟨hw.goto, hob⟩
    | false =>
      refine ⟨hw.goto, ?_⟩
      cases hov : s.dma.overrun with
      | true => exact ho rfl hov
      | false => exact hob hov

/-- A restart is needed only when the controller is at rest and atoms remain. -/
theorem Inv.waiting (h : Inv s) (ha : Active s 0) (hn : s.needsStart = true) : Waiting s true := by
  simp only [needsStart, Bool.and_eq_true, Bool.not_eq_true', decide_eq_true_eq] at hn
  have hnonneg := h.flow.nonneg
  exact ⟨ha, h.flow.halted hn.1, lt_of_le_of_ne hnonneg (Ne.symm hn.2), nofun⟩

/-- The checks after the loop. -/
theorem Inv.finishChecks {status : Word} (h : Inv s) (ha : Active s 0)
    (hd : s.dma.overrun = false → s.dma.remaining = 0 ∧ s.dma.len = 0) :
    Inv (s.finishChecks status) := by
  have hbooks : Books { s with dma := { s.dma with obFifoStatus := status } } :=
    h.toBooks.of_view rfl rfl rfl rfl
  have hpre := ha.isPrefix (Nat.zero_le _)
  unfold Engine.finishChecks
  dsimp only
  split
  · exact hbooks.finished hpre (by rintro ⟨⟩)
  · split
    · exact hbooks.finished hpre (by rintro ⟨⟩)
    · exact hbooks.finished hpre fun _ ho => ha.complete h.flow (hd ho).1 (hd ho).2 ho

/-- A step of the reader keeps what holds in a run. -/
theorem Inv.read (h : Inv s) (hc : Calm s (.read x)) (hs : s.read x = some s') : Inv s' := by
  have hat := h.here
  unfold Engine.read at hs
  unfold Calm at hc
  cases hpc : s.pc with
  | idle =>
    rw [hpc] at hs
    cases hs
  | requested =>
    rw [hpc] at hat hs hc
    obtain rfl := Option.some.inj hs
    have hw : Waiting (s.start x.status) false :=
      start_waiting (h.flow.halted_of_none hc.1 hc.2.1) hc.2.2 hat
    have hflow : Flow (s.start x.status) := ⟨hw.remaining.le, .inl hw.halted⟩
    exact ⟨⟨hflow, h.commands, h.overflowed, h.reports⟩, hw, fun _ => by rintro ⟨⟩⟩
  | syncCheck restart waits =>
    rw [hpc] at hat hs
    obtain rfl := Option.some.inj hs
    exact h.syncCheck hat.1 hat.2
  | syncRead restart waits =>
    rw [hpc] at hat hs hc
    obtain rfl := Option.some.inj hs
    refine h.syncRead hat.1 hat.2 fun hr => ?_
    subst hr
    exact hc
  | issue =>
    rw [hpc] at hat hs
    obtain rfl := Option.some.inj hs
    have hspace : s.dma.space ≠ 0 := by
      rw [Dma.space, hat.1.empty rfl]
      decide
    exact h.issue hat.1 (Dma.csize_pos hat.1.remaining hat.2 hspace) fun _ => id
  | check =>
    rw [hpc] at hat hs
    obtain rfl := Option.some.inj hs
    refine ⟨h.toBooks.goto, ?_⟩
    have hgo : ∀ pc, Active (s.goto pc) 0 := fun _ => Active.goto hat
    split <;> exact hgo _
  | wait =>
    rw [hpc] at hat hs
    obtain rfl := Option.some.inj hs
    split
    · exact ⟨h.toBooks.goto, Active.goto hat⟩
    · split
      · exact h.abort hat
      · exact h
  | fetch =>
    rw [hpc] at hat hs
    obtain rfl := Option.some.inj hs
    split
    · exact h.toBooks.finished (Active.isPrefix hat (Nat.zero_le _)) (by rintro ⟨⟩)
    · exact ⟨h.toBooks.goto, Active.goto hat, le_rfl⟩
  | copy left =>
    cases left with
    | zero =>
      rw [hpc] at hat hs
      obtain rfl := Option.some.inj hs
      exact ⟨h.toBooks.goto, hat.1.goto⟩
    | succ left =>
      rw [hpc] at hat hs
      obtain rfl := Option.some.inj hs
      exact h.copyAtom hat.1 hat.2
  | advance left =>
    rw [hpc] at hat hs
    obtain rfl := Option.some.inj hs
    exact h.advance hat.1 hat.2
  | yieldPoint =>
    rw [hpc] at hat hs
    obtain rfl := Option.some.inj hs
    split
    · exact h.abort hat
    · exact ⟨h.toBooks.goto, Active.goto hat⟩
  | needsStart =>
    rw [hpc] at hat hs
    obtain rfl := Option.some.inj hs
    split
    · next hneeds => exact ⟨h.toBooks.goto, (Inv.waiting h hat hneeds).goto⟩
    · exact ⟨h.toBooks.goto, Active.goto hat⟩
  | refresh =>
    rw [hpc] at hat hs
    obtain rfl := Option.some.inj hs
    have hbooks : Books { s with dma := s.dma.refresh x.status } :=
      h.toBooks.of_view rfl rfl rfl rfl
    exact ⟨hbooks.goto, (Waiting.refresh hat).goto, by rintro ⟨⟩⟩
  | restart =>
    rw [hpc] at hat hs
    obtain rfl := Option.some.inj hs
    exact h.restartDma hat.1 hat.2
  | loopRemaining =>
    rw [hpc] at hat hs
    obtain rfl := Option.some.inj hs
    split
    · exact ⟨h.toBooks.goto, Active.goto hat⟩
    · next hr => exact ⟨h.toBooks.goto, Active.goto hat, not_not.1 hr⟩
  | loopEmpty =>
    rw [hpc] at hat hs
    obtain rfl := Option.some.inj hs
    split
    · next he => exact ⟨h.toBooks.goto, hat.1.goto, fun _ => ⟨hat.2, Dma.empty_iff.1 he⟩⟩
    · exact ⟨h.toBooks.goto, hat.1.goto⟩
  | finish =>
    rw [hpc] at hat hs
    obtain rfl := Option.some.inj hs
    exact h.finishChecks hat.1 hat.2

/-- A step keeps what holds in a run. -/
theorem Inv.step {t : Turn} (h : Inv s) (hc : Calm s t) (hs : s.step t = some s') : Inv s' := by
  cases t with
  | request count user =>
    change (if s.pc = .idle ∧ 0 < count ∧ count < 2 ^ 31 then _ else none) = some s' at hs
    split at hs
    · next hreq =>
      obtain rfl := Option.some.inj hs
      refine ⟨⟨?_, h.commands, h.overflowed, h.reports⟩, hreq.2.1⟩
      refine ⟨h.flow.nonneg, ?_⟩
      rcases h.flow.dmac with hh | ⟨m, hm⟩ | he
      · exact .inl ⟨hh.transfer, hh.command, hh.endIntr⟩
      · exact .inr (.inl ⟨m, hm.fits, hm.transfer, hm.le, hm.command, hm.endIntr⟩)
      · exact .inr (.inr ⟨he.fits, he.transfer, he.command, he.endIntr⟩)
    · cases hs
  | dmaMove => exact h.passed (dmaMove_passed h.flow hs)
  | dmaEnd => exact h.passed (dmaEnd_passed h.flow hs)
  | interrupt status => exact h.passed (interrupt_passed h.flow hs)
  | read x => exact h.read hc hs

theorem inv_loaded : Inv loaded where
  flow := ⟨le_rfl, .inl ⟨rfl, rfl, rfl⟩⟩
  here := trivial
  commands := nofun
  overflowed := rfl
  reports := nofun

/-- What holds in every state of a run: each command of the controller had at least one atom and
kept to the restrictions; the one that is under way ends before the end of the buffer and outside
the atoms in the ring; the ring never overflowed; what remains is not negative; and the atoms that
are handed over, in this transfer and in each one before, are the first ones that were delivered for
it, and all when it ended without an error and an overrun. -/
structure Sound (s : Engine) : Prop where
  commands : ∀ d ∈ s.issued, 0 < d.csize ∧ d.Restricted
  target : ∀ c, s.command = some c → c.target + c.left ≤ dmaFifoAtoms ∧
    ∀ i < c.left, ∀ k < s.dma.len, (s.dma.get + k) % dmaFifoAtoms ≠ c.target + i
  overflowed : s.overflowed = false
  remaining : 0 ≤ s.dma.remaining
  handed : s.pc ≠ .idle → s.pc ≠ .requested → s.handed <+: stream s.request 0 s.delivered
  reports : ∀ r ∈ s.reports, r.Right

theorem At.isPrefix (h : s.At pc) (hi : pc ≠ .idle) (hr : pc ≠ .requested) :
    s.handed <+: stream s.request 0 s.delivered := by
  cases pc with
  | idle => exact absurd rfl hi
  | requested => exact absurd rfl hr
  | syncCheck | syncRead | issue | restart => exact h.1.active.isPrefix (Nat.zero_le _)
  | refresh => exact h.active.isPrefix (Nat.zero_le _)
  | copy | loopEmpty | finish => exact h.1.isPrefix (Nat.zero_le _)
  | advance => exact h.1.isPrefix (Nat.one_le_of_lt h.2)
  | check | wait | fetch | yieldPoint | needsStart | loopRemaining =>
    exact Active.isPrefix h (Nat.zero_le _)

theorem Inv.sound (h : Inv s) : Sound s where
  commands := h.commands
  target := fun _ hc => h.flow.target hc
  overflowed := h.overflowed
  remaining := h.flow.nonneg
  handed := h.here.isPrefix
  reports := h.reports

/-- A run of turns, whose steps meet a condition. -/
def runs (ok : Engine → Turn → Prop) [∀ s t, Decidable (ok s t)] (s : Engine) :
    List Turn → Option Engine
  | [] => some s
  | t :: ts => if ok s t then (s.step t).bind fun s => runs ok s ts else none

theorem reach_runs {ok : Engine → Turn → Prop} [∀ s t, Decidable (ok s t)] {s₀ : Engine}
    (h₀ : Reach ok s₀ s) {ts : List Turn} (h : runs ok s ts = some s') : Reach ok s₀ s' := by
  induction ts generalizing s with
  | nil => exact Option.some.inj h ▸ h₀
  | cons t ts ih =>
    unfold runs at h
    split at h
    · next hok =>
      obtain ⟨s₁, hs, hrun⟩ := Option.bind_eq_some_iff.1 h
      exact ih (h₀.step hok hs) hrun
    · cases h

/-- **The DMA engine.** In every state of a calm run, with any requests, answers and order of the
steps, the engine is sound. -/
theorem transfers_sound (h : Reach Calm loaded s) : Sound s :=
  (Reach.rule (fun _ _ _ hi hc hs => hi.step hc hs) h inv_loaded).sound

/-- A transfer of two atoms, which the FPGA has ready. -/
def pairTurns : List Turn :=
  [.request 2 true, .read { status := 2 }, .read {}, .read {}, .dmaMove, .dmaMove, .dmaEnd,
    .interrupt 0] ++ List.replicate 12 (.read {})

theorem transfers_sound_pair : ∃ s, runs Calm loaded pairTurns = some s ∧ Sound s ∧
    s.reports.map (fun r => (r.error, r.handed)) = [(none, [⟨1, 0⟩, ⟨1, 1⟩])] := by
  have hmap : (runs Calm loaded pairTurns).map
      (fun s => s.reports.map fun r => (r.error, r.handed)) = some [(none, [⟨1, 0⟩, ⟨1, 1⟩])] := by
    decide +kernel
  obtain ⟨s, hrun, hreports⟩ := Option.map_eq_some_iff.1 hmap
  exact ⟨s, hrun, transfers_sound (reach_runs .refl hrun), hreports⟩

/-- A transfer whose status shows an overrun and no atoms when it is read for the first command. -/
def overrunTurns : List Turn :=
  [.request 1 true, .read {}, .read {}, .read { status := 0x40000000 }, .read {}, .read {}]

/-- The first command can be one of no atoms. -/
theorem nothing_commanded : ¬∀ s, Reach (fun _ _ => True) loaded s → Sound s := by
  intro h
  have hmap : (runs (fun _ _ => True) loaded overrunTurns).map
      (fun s => s.issued.map fun d => d.csize) = some [0] := by
    decide +kernel
  obtain ⟨s, hrun, hissued⟩ := Option.map_eq_some_iff.1 hmap
  obtain ⟨d, hd, hzero⟩ := List.map_eq_singleton_iff.1 hissued
  have hpos := ((h s (reach_runs .refl hrun)).commands d (by rw [hd]; simp)).1
  omega

/-- A transfer that a signal stops with its interrupt still to come, and one that starts before it
comes. -/
def stoppedTurns : List Turn :=
  [.request 2 true, .read { status := 2 }, .read {}, .read {}, .dmaMove, .dmaMove, .dmaEnd,
    .read {},
    .read { stop := true }, .request 2 true, .read { status := 2 }, .interrupt 2] ++
  List.replicate 14 (.read {})

/-- The second of them is handed the atoms of the first one, without an error. -/
theorem leftover_handed : (runs (fun _ _ => True) loaded stoppedTurns).map
    (fun s => s.reports.map fun r => (r.request, r.error, r.handed)) =
    some [(1, some .restartSys, []), (2, none, [⟨1, 0⟩, ⟨1, 1⟩])] := by
  decide +kernel

end Engine

end LiberaDaq.Dd
