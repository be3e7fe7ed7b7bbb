import LiberaDaq.Command.Independence
import LiberaDaq.Cspi.Extent

/-!
# What a read may write

`setHandler` sizes an output attribute for the samples of its request, `acquireHandler` passes its
pointer with a number of bytes, and the driver writes atoms of the kind that it acquires.
`extent_contract` says after which accepted requests every turn keeps to its attribute: those that
bring their own number of samples and take their attribute and the kind of the driver from the same
mode, and those with which the driver acquires nothing or asks for no atom.
-/

namespace LiberaDaq

open Cspi Interaction Prog

/-! ## The writes of a turn -/

/-- Where a call of the library may write, and what: the connection is open in the mode of the
configuration. -/
def Driver.mayWrite (d : Driver) : UnitEvent → Option (Buffer × AtomKind × ℕ)
  | ⟨.inl (.inl (.read _ b n)), _⟩ => some (b, d.cfg.mode.written n.toNat)
  | ⟨.inl (.inl (.get _ b)), _⟩ => some (b, Mode.sa.written 1)
  | _ => none

/-- The atoms go into the attribute, and are those it is for. -/
def Dataset.Holds (o : Dataset) (a : Attr) (x : AtomKind × ℕ) : Prop :=
  0 < x.2 → x.2 * x.1.size ≤ o.size a ∧ x.1 = a.kind

/-- Every write of a move goes into the attribute whose pointer it is given. -/
def StaysInside (m : StationMove) : Prop :=
  ∀ e ∈ m.events, ∀ a x, m.before.driver.mayWrite e = some (some a.name, x) →
    m.before.cmd.out.Holds a x

/-- Every turn that follows the move, until another request, stays inside. -/
def StaysInsideAfter (m : StationMove) : Prop :=
  ∀ ts s', History Station.step m.after ts s' → (∀ t ∈ ts, t.op = .acquire) →
    ∀ t ∈ ts, StaysInside t

/-! ## When they stay inside -/

/-- The samples that count for a request, its own or those left over, and the atoms that the driver
was told to read at most. -/
def Request.samplesOn (r : Request) (s : Station) : Word × Word :=
  if r.hasSamples then (r.tsamples, r.tsamples) else (s.cmd.samples, s.driver.cfg.atomCount)

/-- A read asks for no atom: none of them fits the bytes that the command passes, or the driver was
told to read none. -/
def Request.AsksNothing (r : Request) (s : Station) (a : Attr) (k : AtomKind) : Prop :=
  ((r.samplesOn s).1 * BitVec.ofNat 32 a.kind.size).toNat < k.size ∨ (r.samplesOn s).2 = 0

/-- The request leaves room for what is read: where the driver acquires anything, the request has a
number of samples and an attribute for the atoms of the driver, or the mode writes nothing when no
atom is asked for and none is. -/
def Request.Roomy (r : Request) (s : Station) : Prop :=
  ∀ w a k, r.mode = some w → readAttr w = some a → acquireKind w = some k →
    r.hasSamples ∧ k.2 = a.kind ∨ (k.1 = .pm ∨ k.1 = .adc) ∧ r.AsksNothing s a k.2

instance (r : Request) (s : Station) (a : Attr) (k : AtomKind) :
    Decidable (r.AsksNothing s a k) := inferInstanceAs (Decidable (_ ∨ _))

/-- What the next turn of a station may read goes into its attribute. -/
def Station.Roomy (s : Station) : Prop :=
  s.driver.acquiring → ∀ a, readAttr s.cmd.mode = some a →
    s.cmd.out.Holds a (s.driver.cfg.mode.written (s.driver.readCount (s.cmd.bcount a)).toNat)

variable {c c' : AcquireCmd} {d d' : Driver} {t : List UnitEvent} {e : Exit} {r : Request}
  {w : Word} {m : StationMove} {ms : List StationMove} {s s' : Station} {a : Attr}
  {x : AtomKind × ℕ} {u : UnitEvent}

theorem Attr.name_injective : Function.Injective Attr.name := by
  intro a b h
  cases a <;> cases b <;> first | rfl | exact absurd h (by decide)

/-! ## A turn -/

/-- The write of a read. -/
theorem read_writes {b : Buffer} {addr : ℤ} {n : Word} {tr : List DrvEvent} {ro : ReadOutcome}
    {y : Buffer × AtomKind × ℕ} (hr : d.ReadRun b addr n tr ro) {v : DrvEvent} (hv : v ∈ tr)
    (hw : d.mayWrite (leftEvent v) = some y) :
    d.acquiring ∧ y = (b, d.cfg.mode.written (d.readCount n).toNat) := by
  have hdata : ∀ {tr ro}, d.DataRun b addr n tr ro → v ∈ tr →
      y = (b, d.cfg.mode.written (d.readCount n).toNat) := by
    rintro tr ro (⟨rc, data, hm⟩ | - | ⟨rc, -⟩ | ⟨x, hm, -⟩) hv
    · cases List.mem_singleton.1 hv
      rw [hm]
      exact (Option.some.inj hw).symm
    · cases hv
    · cases List.mem_singleton.1 hv
      cases hw
    · rcases List.mem_cons.1 hv with rfl | hv
      · cases hw
      · cases List.mem_singleton.1 hv
        exact (Option.some.inj hw).symm
  rcases hr with - | ⟨ws, w, -⟩ | ⟨ws, w, hacq, -, -, -, hd⟩ | ⟨hacq, -, hd⟩
  · cases hv
  · cases List.mem_singleton.1 hv
    cases hw
  · rcases List.mem_cons.1 hv with rfl | hv
    · cases hw
    · exact ⟨hacq, hdata hd hv⟩
  · exact ⟨hacq, hdata hd hv⟩

theorem mayWrite_ts {ep : EnvParams} {y : ℤ × Timestamp} (hu : u ∈ d.tsEvents ep y) :
    d.mayWrite u = none := by
  rcases List.mem_cons.1 hu with rfl | hu
  · rfl
  · rw [List.mem_singleton.1 hu]
    rfl

theorem AcquireCmd.FinishRun.mayWrite (h : c.FinishRun d t e c' d') {d₀ : Driver} (hu : u ∈ t) :
    d₀.mayWrite u = none := by
  cases h with
  | goesOn => cases hu
  | _ =>
    rcases List.mem_cons.1 hu with rfl | hu
    · rfl
    · rw [List.mem_singleton.1 hu]
      rfl

/-- What the write of a turn is. -/
structure WrittenBy (c : AcquireCmd) (d : Driver) (a : Attr) (x : AtomKind × ℕ) : Prop where
  attr : readAttr c.mode = some a
  acquiring : d.acquiring
  extent : x = d.cfg.mode.written (d.readCount (c.bcount a)).toNat

theorem AcquireCmd.IterateRun.written (h : c.IterateRun d t e c' d') (hu : u ∈ t)
    (hw : d.mayWrite u = some (some a.name, x)) : WrittenBy c d a x := by
  cases h with
  | missing ep y =>
    rcases List.mem_append.1 hu with hu | hu
    · rw [mayWrite_ts hu] at hw
      cases hw
    · rw [List.mem_singleton.1 hu] at hw
      cases hw
  | unread ep y hattr hfin =>
    rcases List.mem_append.1 hu with hu | hu
    · rw [mayWrite_ts hu] at hw
      cases hw
    · rw [hfin.mayWrite hu] at hw
      cases hw
  | read ep y b ptr hattr hptr hn hread hfin =>
    rcases List.mem_append.1 hu with hu | hu
    · rw [mayWrite_ts hu] at hw
      cases hw
    rcases List.mem_cons.1 hu with rfl | hu
    · cases hw
    rcases List.mem_append.1 hu with hu | hu
    · obtain ⟨v, hv, rfl⟩ := List.mem_map.1 hu
      obtain ⟨hacq, hy⟩ := read_writes hread hv hw
      obtain ⟨hbuffer, rfl⟩ := Prod.mk.inj hy
      cases ptr with
      | false => cases hbuffer
      | true =>
        obtain rfl : a = b := Attr.name_injective (Option.some.inj hbuffer)
        exact ⟨hattr, hacq, rfl⟩
    · rw [hfin.mayWrite hu] at hw
      cases hw

theorem AcquireCmd.TurnRun.written (h : c.TurnRun d t e c' d') (hu : u ∈ t)
    (hw : d.mayWrite u = some (some a.name, x)) : WrittenBy c d a x := by
  cases h with
  | expired =>
    rw [List.mem_singleton.1 hu] at hw
    cases hw
  | timed now hdur hexp hit =>
    rcases List.mem_cons.1 hu with rfl | hu
    · cases hw
    · exact hit.written hu hw
  | untimed hdur hit => exact hit.written hu hw

/-- Where there is room a turn stays inside, -/
theorem staysInside_of_roomy (hm : m.Valid Station.step) (hop : m.op = .acquire)
    (h : m.before.Roomy) : StaysInside m := by
  intro u hu a x hw
  by_cases hl : m.before.live
  · have hwritten := (move_turn hm hop hl).1.written hu hw
    rw [hwritten.extent]
    exact h hwritten.acquiring a hwritten.attr
  · rw [(move_idle hm hop hl).1] at hu
    cases hu

theorem AcquireCmd.Keeps.roomy (h : s.cmd.Keeps s.driver s'.cmd s'.driver) (hs : s.Roomy) :
    s'.Roomy := by
  have hbytes : ∀ a, s'.cmd.bcount a = s.cmd.bcount a := fun a => by
    rw [AcquireCmd.bcount, AcquireCmd.bcount, h.samples]
  have hcount : s'.driver.readCount = s.driver.readCount := by
    funext n
    rw [Driver.readCount, Driver.readCount, h.datasize, h.atomCount]
  rintro ⟨hop, hsize⟩ a hattr
  rw [h.datasize] at hsize
  rw [h.mode] at hattr
  have hroomy := hs ⟨h.operation hop, hsize⟩ a hattr
  rwa [Dataset.Holds, h.size, h.cspiMode, hcount, hbytes]

/-- and leaves the room. -/
theorem roomy_move (hm : m.Valid Station.step) (hop : m.op = .acquire) (h : m.before.Roomy) :
    m.after.Roomy := by
  by_cases hl : m.before.live
  · exact (move_turn hm hop hl).1.keeps.roomy h
  · rwa [(move_idle hm hop hl).2.2]

/-- **Where there is room, every turn stays inside.** -/
theorem staysInside_history (hh : History Station.step s ms s') (h : s.Roomy)
    (hops : ∀ m ∈ ms, m.op = .acquire) : ∀ m ∈ ms, StaysInside m := by
  have hrule := History.rule (I := Station.Roomy) (G := fun m => m.op = .acquire)
    (P := StaysInside) ?_ hh h hops
  · exact hrule.1
  · intro m hm hI hop
    exact ⟨staysInside_of_roomy hm hop hI, roomy_move hm hop hI⟩

/-! ## Where there is no room -/

/-- A driver that acquires can be read from, as far as the write. -/
theorem exists_read_writes (h : d.acquiring) (b : Buffer) (n : Word) :
    ∃ tr ro, d.ReadRun b channelDd n tr ro ∧ ∃ v ∈ tr, d.mayWrite (leftEvent v) =
      some (b, d.cfg.mode.written (d.readCount n).toNat) := by
  have hdata : ∃ tr ro, d.DataRun b channelDd n tr ro ∧ ∃ v ∈ tr, d.mayWrite (leftEvent v) =
      some (b, d.cfg.mode.written (d.readCount n).toNat) := by
    by_cases hm : d.cfg.mode = .sa
    · refine ⟨_, _, .got 0 [] hm, _, List.mem_singleton_self _, ?_⟩
      rw [hm]
      rfl
    · exact ⟨_, _, .data ⟨0, 0, []⟩ hm rfl, _, List.mem_cons_of_mem _ (List.mem_singleton_self _),
        rfl⟩
  obtain ⟨tr, ro, hrun, v, hv, hw⟩ := hdata
  by_cases htr : d.cfg.mask.hits wantTrigger = true
  · exact ⟨_, _, .woken [(0, eventTrigget)] (0, eventTrigget) h htr rfl (by decide) hrun, v,
      List.mem_cons_of_mem _ hv, hw⟩
  · exact ⟨_, _, .untriggered h htr hrun, v, hv, hw⟩

theorem exists_finish (c : AcquireCmd) (d : Driver) :
    ∃ t e c' d', (c.finish.interp unitImpl d).Runs t ((e, c'), d') := by
  by_cases hend : c.loops = 0 ∨ c.out.mode = 0
  · exact ⟨_, _, _, _, finish_turn_runs.2 (.ended zeroEnv 0 hend)⟩
  · by_cases herr : c.countDown.out.error = 0
    · exact ⟨_, _, _, _, finish_turn_runs.2 (.goesOn hend herr)⟩
    · exact ⟨_, _, _, _, finish_turn_runs.2 (.failed zeroEnv 0 hend herr)⟩

/-- A read through a pointer. -/
theorem runs_readInto {tr : List DrvEvent} {ro : ReadOutcome}
    (h : d.ReadRun (a.buffer true) channelDd (c.bcount a) tr ro) :
    ((c.readInto a true).interp unitImpl d).Runs (driverEvents tr) (c.took a true ro, d) := by
  simp only [AcquireCmd.readInto, perform_bind, interp_call]
  have hread := unit_read_runs.2 ⟨tr, rfl, h, rfl⟩
  refine runs_bind.2 ⟨_, [], _, (List.append_nil _).symm, hread, ?_⟩
  simp

/-- A turn that comes to its read. -/
theorem exists_iterate {tr : List DrvEvent} {ro : ReadOutcome} (hattr : readAttr c.mode = some a)
    (h : d.ReadRun (a.buffer true) channelDd (c.bcount a) tr ro) :
    ∃ t e c' d', (c.iterate.interp unitImpl d).Runs t ((e, c'), d') ∧
      ∀ v ∈ tr, leftEvent v ∈ t := by
  have hacq : (c.acquire.interp unitImpl d).Runs
      (frameEvent (.getRWPtr a) true :: driverEvents tr) (some (c.took a true ro), d) := by
    have hinto : ((c.readInto a true >>= fun c => Pure.pure (some c)).interp unitImpl d).Runs
        (driverEvents tr) (some (c.took a true ro), d) := by
      rw [interp_bind]
      exact runs_bind.2 ⟨_, [], _, (List.append_nil _).symm, runs_readInto h, rfl, rfl⟩
    unfold AcquireCmd.acquire
    rw [hattr]
    simp only [perform_bind, interp_call]
    refine Runs.bind (unit_frame_runs.2 ⟨rfl, rfl⟩) ?_
    rw [if_neg (by simp)]
    exact hinto
  obtain ⟨t, e, c', d', hfin⟩ := exists_finish (c.took a true ro) d
  -- GET_TS fails, and the turn goes on
  have hts : (unitImpl (.inl (.iop .getTs)) d).Runs (d.tsEvents zeroEnv (1, {})) ((1, _), d) :=
    unit_getTs_runs.2 ⟨zeroEnv, (1, {}), rfl, rfl, rfl, rfl⟩
  refine ⟨d.tsEvents zeroEnv (1, {}) ++ (frameEvent (.getRWPtr a) true :: driverEvents tr ++ t),
    e, c', d', ?_, ?_⟩
  · simp only [AcquireCmd.iterate, perform_bind, interp_call, interp_bind]
    exact Runs.bind hts (Runs.bind hacq hfin)
  · intro v hv
    exact List.mem_append_right _ (List.mem_append_left _ (.tail _ (List.mem_map_of_mem hv)))

/-- A turn of a live command that comes to its read. -/
theorem exists_turn {tr : List DrvEvent} {ro : ReadOutcome} (hl : s.live)
    (hattr : readAttr s.cmd.mode = some a)
    (h : s.driver.ReadRun (a.buffer true) channelDd (s.cmd.bcount a) tr ro) :
    ∃ m : StationMove, m.Valid Station.step ∧ m.op = .acquire ∧ m.before = s ∧
      ∀ v ∈ tr, leftEvent v ∈ m.events := by
  obtain ⟨t, e, c', d', hiter, hmem⟩ := exists_iterate hattr h
  have hturn : ∃ t, (s.cmd.acquireHandler.interp unitImpl s.driver).Runs t ((e, c'), d') ∧
      ∀ v ∈ tr, leftEvent v ∈ t := by
    unfold AcquireCmd.acquireHandler
    by_cases hdur : s.cmd.acquireDuration = 0
    · rw [if_neg (not_not.2 hdur)]
      exact ⟨t, hiter, hmem⟩
    · have hexp : s.cmd.expired s.cmd.startAcquire = false := by
        simp [AcquireCmd.expired, BitVec.ult]
      rw [if_pos hdur]
      simp only [perform_bind, interp_call]
      refine ⟨[frameEvent .now s.cmd.startAcquire] ++ t,
        Runs.bind (unit_frame_runs.2 ⟨rfl, rfl⟩) ?_, ?_⟩
      · simpa [hexp] using hiter
      · intro v hv
        simp [hmem v hv]
  obtain ⟨t, hrun, hmem⟩ := hturn
  refine ⟨⟨.acquire, s, t, e, (Station.leave ((e, c'), d')).2⟩, ?_, rfl, rfl, hmem⟩
  rw [Move.Valid, Station.step, if_pos hl]
  exact runs_bind_pure.2 ⟨((e, c'), d'), hrun, rfl⟩

/-- **Where there is no room, some turn writes elsewhere.** -/
theorem exists_outside (hl : s.live) (h : ¬s.Roomy) :
    ∃ m : StationMove, m.Valid Station.step ∧ m.op = .acquire ∧ m.before = s ∧ ¬StaysInside m := by
  obtain ⟨hacq, h⟩ := Classical.not_imp.1 h
  obtain ⟨a, h⟩ := not_forall.1 h
  obtain ⟨hattr, hroom⟩ := Classical.not_imp.1 h
  obtain ⟨tr, ro, hread, v, hv, hw⟩ :=
    exists_read_writes hacq (a.buffer true) (s.cmd.bcount a)
  obtain ⟨m, hm, hop, rfl, hmem⟩ := exists_turn hl hattr hread
  exact ⟨m, hm, hop, rfl, fun hin => hroom (hin _ (hmem v hv) a _ hw)⟩

/-! ## After an accepted request -/

/-- `acquireHandler` reads into the attribute that `setHandler` sized, except for the average. -/
theorem readAttr_of_chosen {b : Attr} (ha : chosenAttr w = some a) (hb : readAttr w = some b) :
    b = a ∧ b ∈ emptied ∨ b = .avg := by
  revert ha hb
  unfold chosenAttr readAttr
  generalize hits w liberaIopModeDd = dd
  generalize hits w liberaIopModeSa = sa
  generalize hits w liberaIopModeContinuous = cw
  generalize hits w liberaIopModeSinglepass = sp
  generalize hits w liberaIopModeAvg = avg
  cases a <;> cases b <;> revert dd sa cw sp avg <;> decide

/-- The sizes of the attributes that `setHandler` empties. -/
theorem prepared_size (c : AcquireCmd) (r : Request) (h : a ∈ emptied) :
    (c.prepared r a).out.size a =
      if r.hasSamples then (r.tsamples * BitVec.ofNat 32 a.kind.size).toNat else 0 := by
  have hempty : (c.requested r).emptied.out.size a = 0 := by
    simp only [emptied, List.mem_cons, List.not_mem_nil, or_false] at h
    rcases h with rfl | rfl | rfl | rfl <;> rfl
  have hsought : (c.prepared r a).out.size = (((c.requested r).emptied).sized r a).out.size := by
    unfold AcquireCmd.prepared AcquireCmd.sought
    split <;> rfl
  rw [hsought]
  unfold AcquireCmd.sized
  split
  · exact Function.update_self ..
  · exact hempty

theorem tsamples_le (r : Request) : r.tsamples.toInt ≤ 64000 := by
  unfold Request.tsamples
  split
  · next v _ =>
    split
    · next hlt =>
      have hlt := BitVec.slt_iff_toInt_lt.1 hlt
      exact hlt.le
    · decide
  · decide

/-- The samples of a request that has some. -/
theorem tsamples_bounds (h : r.hasSamples = true) :
    0 < r.tsamples.toNat ∧ r.tsamples.toNat ≤ 64000 := by
  have hle := tsamples_le r
  have hpos : (0 : Word).toInt < r.tsamples.toInt := BitVec.slt_iff_toInt_lt.1 h
  rw [BitVec.toInt_eq_toNat_cond] at hle
  have hzero : (0 : Word).toInt = 0 := rfl
  rw [hzero, BitVec.toInt_eq_toNat_cond] at hpos
  split at hpos <;> omega

theorem Cspi.AtomKind.size_bounds (k : AtomKind) : 4 ≤ k.size ∧ k.size ≤ 64 := by
  cases k <;> decide

theorem written_of_kind {k : Mode × AtomKind} (hk : acquireKind w = some k) (n : ℕ) :
    (k.1.written n).1 = k.2 ∧ (k.1.written n).2 ≤ max 1 n ∧
      ((k.1.written n).2 = 0 ↔ (k.1 = .pm ∨ k.1 = .adc) ∧ n = 0) := by
  have hall := mem_acquireKinds hk
  simp only [acquireKinds, List.mem_cons, List.not_mem_nil, or_false] at hall
  rcases hall with rfl | rfl | rfl | rfl | rfl | rfl <;> simp [Mode.written]

/-- The size of the atoms that the driver was set up for. -/
theorem datasize_toNat {k : Mode × AtomKind} (hsetUp : s'.setUp = r.setUp w s)
    (hk : acquireKind w = some k) : s'.driver.cfg.datasize.toNat = k.2.size := by
  have hds : s'.driver.cfg.datasize = (r.setUp w s).datasize := congrArg SetUp.datasize hsetUp
  obtain ⟨-, hle⟩ := k.2.size_bounds
  rw [hds, Request.setUp, hk]
  simp only [Option.map_some, Option.getD_some, BitVec.toNat_ofNat]
  omega

/-- The number of atoms that the first turn asks for. -/
theorem readCount_eq_zero_iff {k : Mode × AtomKind} (hsetUp : s'.setUp = r.setUp w s)
    (hk : acquireKind w = some k) (b : Attr) :
    (s'.driver.readCount (s'.cmd.bcount b)).toNat = 0 ↔ r.AsksNothing s b k.2 := by
  have hsamples : s'.cmd.samples = (r.samplesOn s).1 := by
    rw [show s'.cmd.samples = (r.setUp w s).samples from congrArg SetUp.samples hsetUp]
    unfold Request.setUp Request.samplesOn
    cases r.hasSamples <;> rfl
  have hcount : s'.driver.cfg.atomCount = (r.samplesOn s).2 := by
    rw [show s'.driver.cfg.atomCount = (r.setUp w s).atomCount from congrArg SetUp.atomCount hsetUp]
    unfold Request.setUp Request.samplesOn
    cases r.hasSamples <;> rfl
  have hsize := datasize_toNat hsetUp hk
  obtain ⟨hpos, -⟩ := k.2.size_bounds
  rw [Driver.readCount, AcquireCmd.bcount, hsamples, hcount, Request.AsksNothing]
  generalize (r.samplesOn s).1 * BitVec.ofNat 32 b.kind.size = n
  generalize (r.samplesOn s).2 = y
  have hdiv : (n / s'.driver.cfg.datasize).toNat = n.toNat / k.2.size := by
    rw [BitVec.toNat_udiv, hsize]
  have hzero : n.toNat / k.2.size = 0 ↔ n.toNat < k.2.size :=
    Nat.div_eq_zero_iff_lt (by omega)
  have hy : y = 0 ↔ y.toNat = 0 := by
    rw [← BitVec.toNat_inj]
    rfl
  rw [hy, ← hzero, ← hdiv]
  split
  · next hle =>
    have hle := BitVec.le_def.1 hle
    omega
  · next hle =>
    have hlt := mt BitVec.le_def.2 hle
    omega

/-- An attribute for the atoms of the driver is not one of averages. -/
theorem kind_ne_average {k : Mode × AtomKind} (hk : acquireKind w = some k) :
    k.2 ≠ .average := by
  have hall := mem_acquireKinds hk
  simp only [acquireKinds, List.mem_cons, List.not_mem_nil, or_false] at hall
  rcases hall with rfl | rfl | rfl | rfl | rfl | rfl <;> decide

/-- The number of samples that a request brings bounds what its turns ask for. -/
theorem readCount_le (hsetUp : s'.setUp = r.setUp w s) (hs : r.hasSamples = true) (n : Word) :
    (s'.driver.readCount n).toNat ≤ r.tsamples.toNat := by
  have hcount : s'.driver.cfg.atomCount = r.tsamples := by
    rw [show s'.driver.cfg.atomCount = (r.setUp w s).atomCount from congrArg SetUp.atomCount hsetUp]
    exact if_pos hs
  rw [Driver.readCount, hcount]
  split
  · next hle => exact BitVec.le_def.1 hle
  · exact le_rfl

/-- The attribute of an accepted request holds what its turns write, when the request brings a number
of samples. -/
theorem holds_of_hasSamples {k : Mode × AtomKind} (hsetUp : s'.setUp = r.setUp w s)
    (hk : acquireKind w = some k) (hs : r.hasSamples = true) (hkind : k.2 = a.kind)
    (hsize : s'.cmd.out.size a = (r.tsamples * BitVec.ofNat 32 a.kind.size).toNat) :
    s'.cmd.out.Holds a (k.1.written (s'.driver.readCount (s'.cmd.bcount a)).toNat) := by
  have hle := readCount_le hsetUp hs (s'.cmd.bcount a)
  generalize (s'.driver.readCount (s'.cmd.bcount a)).toNat = n at hle
  obtain ⟨hwritten, hcount, -⟩ := written_of_kind hk n
  obtain ⟨hpos, hmax⟩ := tsamples_bounds hs
  obtain ⟨-, hbytes⟩ := a.kind.size_bounds
  intro _
  rw [hwritten, hkind, hsize]
  refine ⟨?_, rfl⟩
  have hproduct : (r.tsamples * BitVec.ofNat 32 a.kind.size).toNat =
      r.tsamples.toNat * a.kind.size := by
    have hlt : r.tsamples.toNat * a.kind.size ≤ 64000 * 64 := Nat.mul_le_mul hmax hbytes
    rw [BitVec.toNat_mul, BitVec.toNat_ofNat, Nat.mod_eq_of_lt (show a.kind.size < 2 ^ 32 by omega),
      Nat.mod_eq_of_lt (by omega)]
  rw [hproduct]
  exact Nat.mul_le_mul_right _ (by omega)

/-- **The room that an accepted request leaves.** -/
theorem roomy_accepts (hm : m.Valid Station.step) (hacc : Accepts m r) :
    m.after.Roomy ↔ r.Roomy m.before := by
  obtain ⟨w, a, now, -, -, -, hw, ha, -, -, hcmd, -⟩ := accepts_runs hm hacc
  have hsetUp := accepts_setUp hm hacc hw
  have hmode : m.after.cmd.mode = w := congrArg SetUp.cmdMode hsetUp
  have hop : m.after.driver.cfg.operation =
      if (acquireKind w).isSome then .acquire else .unknown := congrArg SetUp.operation hsetUp
  have hsize : m.after.cmd.out.size = (m.before.cmd.prepared r a).out.size := by
    rw [hcmd]
    rfl
  cases hk : acquireKind w with
  | none =>
    have hop : m.after.driver.cfg.operation = .unknown := by rw [hop, hk]; rfl
    refine iff_of_true (fun hacq => ?_) fun w' b k hw' _ hk' => ?_
    · exact absurd hacq.1 (by rw [hop]; decide)
    · obtain rfl := Option.some.inj (hw.symm.trans hw')
      rw [hk] at hk'
      cases hk'
  | some k =>
    have hacq : m.after.driver.acquiring := by
      have hds := datasize_toNat hsetUp hk
      obtain ⟨hpos, -⟩ := k.2.size_bounds
      have hlt : 0 < m.after.driver.cfg.datasize.toNat := by omega
      exact ⟨by rw [hop, hk]; rfl, BitVec.lt_def.2 hlt⟩
    have hcspi : m.after.driver.cfg.mode = k.1 := by
      rw [show m.after.driver.cfg.mode = (r.setUp w m.before).mode from
        congrArg SetUp.mode hsetUp, Request.setUp, hk]
      rfl
    constructor
    · intro h w' b k' hw' hb hk'
      obtain rfl := Option.some.inj (hw.symm.trans hw')
      obtain rfl := Option.some.inj (hk.symm.trans hk')
      have hholds := h hacq b (by rw [hmode]; exact hb)
      rw [hcspi] at hholds
      obtain ⟨hkind, -, hzero⟩ :=
        written_of_kind hk (m.after.driver.readCount (m.after.cmd.bcount b)).toNat
      rw [readCount_eq_zero_iff hsetUp hk] at hzero
      refine or_iff_not_imp_right.2 fun hsome => ?_
      obtain ⟨hle, hsame⟩ := hholds (Nat.pos_of_ne_zero (mt hzero.1 hsome))
      rw [hkind] at hle hsame
      refine ⟨?_, hsame⟩
      rcases readAttr_of_chosen ha hb with ⟨rfl, hmem⟩ | rfl
      · by_contra hno
        rw [hsize, prepared_size _ _ hmem, if_neg hno] at hle
        obtain ⟨hpos, -⟩ := k.2.size_bounds
        have := Nat.mul_pos (Nat.pos_of_ne_zero (mt hzero.1 hsome)) (show 0 < k.2.size by omega)
        omega
      · exact absurd hsame (kind_ne_average hk)
    · intro h _ b hb
      rw [hmode] at hb
      rw [hcspi]
      rcases h w b k hw hb hk with ⟨hs, hsame⟩ | hnone
      · rcases readAttr_of_chosen ha hb with ⟨rfl, hmem⟩ | rfl
        · refine holds_of_hasSamples hsetUp hk hs hsame ?_
          rw [hsize, prepared_size _ _ hmem, if_pos hs]
        · exact absurd hsame (kind_ne_average hk)
      · intro hpos
        rw [← readCount_eq_zero_iff hsetUp hk] at hnone
        have hzero := (written_of_kind hk _).2.2.2 hnone
        omega

/-- After a move that accepts a request every turn stays inside if and only if there is room. -/
theorem staysInsideAfter_iff (hm : m.Valid Station.step) (hacc : Accepts m r) :
    StaysInsideAfter m ↔ r.Roomy m.before := by
  rw [← roomy_accepts hm hacc]
  constructor
  · intro h
    by_contra hno
    obtain ⟨w, a, now, -, -, -, -, -, -, -, hcmd, hthrew⟩ := accepts_runs hm hacc
    have hl : m.after.live := ⟨by rw [hcmd]; rfl, hthrew⟩
    obtain ⟨t, ht, hop, hbefore, hout⟩ := exists_outside hl hno
    have hh : History Station.step m.after [t] t.after := hbefore ▸ History.single ht
    exact hout (h [t] _ hh (by simp [hop]) t (List.mem_singleton_self t))
  · intro h ts s' hh hops
    exact staysInside_history hh h hops

/-- **Reads stay inside the output attribute** after an accepted request exactly when it leaves
room. -/
theorem extent_contract (s s' : Station) (ms : List StationMove) (h : History Station.step s ms s')
    (m : StationMove) (hm : m ∈ ms) (r : Request) (hacc : Accepts m r) :
    StaysInsideAfter m ↔ r.Roomy m.before :=
  staysInsideAfter_iff (h.valid m hm) hacc

/-- A request for one sample of `DD` and `SA`. -/
def mixedRequest : Request := { mode := some 3, samples := some 1 }

theorem mixedRequest_move : ∃ m, execAll calm Station.step [.set mixedRequest] calmStation () =
    some [m] ∧ m.result = .return :=
  ⟨_, rfl, rfl⟩

theorem mixedRequest_accepted : ∃ m s', History Station.step calmStation [m] s' ∧
    Accepts m mixedRequest := by
  obtain ⟨m, hms, hres⟩ := mixedRequest_move
  obtain ⟨s', hh⟩ := History.of_execAll hms
  exact ⟨m, s', hh, (List.cons.inj (execAll_ops hms)).1, by decide, hres⟩

/-- The driver writes an atom of `SA` into an attribute of one atom of `DD`. -/
theorem mixed_writes_outside : ¬∀ (s s' : Station) (ms : List StationMove),
    History Station.step s ms s' → ∀ m ∈ ms, ∀ r, Accepts m r → StaysInsideAfter m := by
  intro h
  obtain ⟨m, s', hh, hacc⟩ := mixedRequest_accepted
  have hm : m ∈ [m] := List.mem_singleton_self m
  have hin := h _ _ _ hh m hm _ hacc
  rw [staysInsideAfter_iff (hh.valid m hm) hacc] at hin
  rcases hin 3 .dd (.sa, .sa) rfl (by decide) (by decide) with ⟨-, hkind⟩ | ⟨hmode, -⟩
  · cases hkind
  · rcases hmode with hmode | hmode <;> cases hmode

/-- The contract for that request. -/
theorem extent_contract_mixed : ∃ m, Accepts m mixedRequest ∧
    (StaysInsideAfter m ↔ mixedRequest.Roomy m.before) := by
  obtain ⟨m, s', hh, hacc⟩ := mixedRequest_accepted
  exact ⟨m, hacc, extent_contract _ _ _ hh m (List.mem_singleton_self m) _ hacc⟩

end LiberaDaq
