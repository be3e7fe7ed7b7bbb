import LiberaDaq.Command.Setup

/-!
# What a turn counts

`acquireHandler` counts an acquisition when `read` returns a number that is not negative and sets
`LIBERA_ERROR_READING` when it is negative. This module says exactly on which turns that counts the
reads that stored data and flags those that failed.
-/

namespace LiberaDaq

open Cspi Interaction

/-! ## The calls of a read -/

/-- The calls of the driver that `read` makes. -/
def readCall? : UnitEvent → Option DrvEvent
  | ⟨.inl (.inl (.seek h o s)), x⟩ => some ⟨.inl (.seek h o s), x⟩
  | ⟨.inl (.inl (.read h b n)), x⟩ => some ⟨.inl (.read h b n), x⟩
  | ⟨.inl (.inl (.get h b)), x⟩ => some ⟨.inl (.get h b), x⟩
  | ⟨.inl (.inr .timedwaits), x⟩ => some ⟨.inr .timedwaits, x⟩
  | _ => none

/-- The calls that `read` made in the course of a turn. -/
def readCalls (t : List UnitEvent) : List DrvEvent := t.filterMap readCall?

variable {c c' : AcquireCmd} {d d' : Driver} {t t' : List UnitEvent} {e : Exit} {buffer : Buffer}
  {addr : ℤ} {n : Word} {tr : List DrvEvent} {r : ReadOutcome}

@[simp] theorem readCalls_append : readCalls (t ++ t') = readCalls t ++ readCalls t' :=
  List.filterMap_append

@[simp] theorem readCalls_frame {f : FrameCall} {x : FrameAns f} :
    readCalls (frameEvent f x :: t) = readCalls t := rfl

@[simp] theorem readCalls_stop {ep : EnvParams} {x : ℤ} : readCalls (d.stopEvents ep x) = [] := rfl

@[simp] theorem readCalls_ts {ep : EnvParams} {x : ℤ × Timestamp} :
    readCalls (d.tsEvents ep x) = [] := rfl

theorem readCalls_data (h : d.DataRun buffer addr n tr r) : readCalls (driverEvents tr) = tr := by
  rcases h with ⟨rc, data, hm⟩ | ⟨hm, ha⟩ | ⟨rc, hm, ha, hrc⟩ | ⟨x, hm, ha⟩ <;> rfl

theorem readCalls_read (h : d.ReadRun buffer addr n tr r) : readCalls (driverEvents tr) = tr := by
  rcases h with hacq | ⟨ws, w, hacq, htr, hws, hto⟩ | ⟨ws, w, hacq, htr, hws, hto, h⟩ |
    ⟨hacq, htr, h⟩
  · rfl
  · rfl
  · exact congrArg _ (readCalls_data h)
  · exact readCalls_data h

/-! ## The contract of a turn -/

/-- The handler comes to call `read`: it looked up a pointer and did not give up on it. -/
def Reads (t : List UnitEvent) : Prop :=
  ∃ a ptr, frameEvent (.getRWPtr a) ptr ∈ t ∧ a.readable ptr

theorem reads_append : Reads (t ++ t') ↔ Reads t ∨ Reads t' := by
  constructor
  · rintro ⟨a, ptr, h, hr⟩
    exact (List.mem_append.1 h).imp (⟨a, ptr, ·, hr⟩) (⟨a, ptr, ·, hr⟩)
  · rintro (⟨a, ptr, h, hr⟩ | ⟨a, ptr, h, hr⟩)
    · exact ⟨a, ptr, List.mem_append_left _ h, hr⟩
    · exact ⟨a, ptr, List.mem_append_right _ h, hr⟩

theorem not_reads_driver : ¬Reads (driverEvents tr) := by
  rintro ⟨a, ptr, h, -⟩
  obtain ⟨e, -, he⟩ := List.mem_map.1 h
  cases he

/-- A turn from `c` to `c'` counts an acquisition exactly when its read stored data, and flags an
error exactly when it failed. -/
structure CountsRight (c : AcquireCmd) (t : List UnitEvent) (c' : AcquireCmd) : Prop where
  counted : c'.out.acquisition = c.out.acquisition + if 0 < stored (readCalls t) then 1 else 0
  flagged : hits c'.out.error liberaErrorReading ↔ ∃ e ∈ readCalls t, CallFailed e

/-- The read of a turn, if there is one, is sound. -/
def SoundTurn (d : Driver) (t : List UnitEvent) : Prop := Reads t → d.Sound (readCalls t)

/-! ## When the contract is kept -/

theorem countDown_out : c.countDown.out = c.out := by
  unfold AcquireCmd.countDown
  split <;> rfl

/-- The end of a turn counts nothing, flags nothing and reads nothing. -/
theorem AcquireCmd.FinishRun.quiet (h : c.FinishRun d t e c' d') :
    readCalls t = [] ∧ ¬Reads t ∧ c'.out.acquisition = c.out.acquisition ∧
      c'.out.error = c.out.error := by
  rcases h with ⟨ep, x, hend⟩ | ⟨ep, x, hend, herr⟩ | ⟨hend, herr⟩
  · exact ⟨rfl, not_reads_driver, rfl, rfl⟩
  · refine ⟨rfl, not_reads_driver, ?_, ?_⟩ <;> simp [countDown_out]
  · refine ⟨rfl, by simp [Reads], ?_, ?_⟩ <;> rw [countDown_out]

/-- A read counts an acquisition when its result is not negative. -/
theorem took_acquisition (a : Attr) (ptr : Bool) : (c.took a ptr r).out.acquisition =
    c.out.acquisition + if 0 ≤ r.ret then 1 else 0 := by
  have h : (c.received a ptr r).acquisition = c.out.acquisition := by
    unfold AcquireCmd.received
    split <;> rfl
  unfold AcquireCmd.took
  split
  · simp [h]
  · simp [h]

/-- A read flags an error when its result is negative. -/
theorem took_error (a : Attr) (ptr : Bool) : (c.took a ptr r).out.error =
    if 0 ≤ r.ret then c.out.error else c.out.error ||| liberaErrorReading := by
  have h : (c.received a ptr r).error = c.out.error := by
    unfold AcquireCmd.received
    split <;> rfl
  unfold AcquireCmd.took
  split
  · simp [h]
  · simp [h]

theorem add_ite_inj {P Q : Prop} [Decidable P] [Decidable Q] (x : BitVec 64) :
    (x + if P then 1 else 0) = (x + if Q then 1 else 0) ↔ (P ↔ Q) := by
  by_cases hP : P <;> by_cases hQ : Q <;> simp [hP, hQ]

/-- Without a read there is nothing to count and nothing to flag. -/
theorem countsRight_of_not_reads (ht : readCalls t = []) (hacq : c'.out.acquisition =
    c.out.acquisition) (herr : hits c'.out.error liberaErrorReading = false) :
    CountsRight c t c' := by
  refine ⟨?_, ?_⟩
  · simp [ht, hacq]
  · simp [ht, herr]

/-- After the test of the duration, a turn counts right when its read is sound. -/
theorem AcquireCmd.IterateRun.countsRight_iff (h : c.IterateRun d t e c' d')
    (herr : c.out.error = 0) : CountsRight c t c' ↔ SoundTurn d t := by
  rcases h with ⟨ep, x, hattr⟩ | ⟨ep, x, hattr, hfin⟩ | ⟨ep, x, a, ptr, hattr, hptr, hn, hread,
    hfin⟩
  · refine iff_of_true (countsRight_of_not_reads rfl (by simp) ?_) fun hr => ?_
    · simp [herr, hits, liberaErrorAllocateDataset, liberaErrorReading]
    · rcases reads_append.1 hr with hr | ⟨a, ptr, hmem, hp⟩
      · exact absurd hr not_reads_driver
      · obtain ⟨rfl, rfl⟩ : a = .dd ∧ ptr = false := by simpa using hmem
        simp [Attr.readable] at hp
  · obtain ⟨hcalls, hreads, hacq, herr'⟩ := hfin.quiet
    refine iff_of_true (countsRight_of_not_reads ?_ ?_ ?_) fun hr => ?_
    · rw [readCalls_append, readCalls_ts, hcalls, List.append_nil]
    · rw [hacq, AcquireCmd.stamped_acquisition]
    · rw [herr', AcquireCmd.stamped_error, herr]
      rfl
    · rcases reads_append.1 hr with hr | hr
      · exact absurd hr not_reads_driver
      · exact absurd hr hreads
  · rename_i tr r t₁
    obtain ⟨hcalls, -, hacq, herr'⟩ := hfin.quiet
    have hc : readCalls (d.tsEvents ep x ++ frameEvent (.getRWPtr a) ptr ::
        (driverEvents tr ++ t₁)) = tr := by
      rw [readCalls_append, readCalls_ts, List.nil_append, readCalls_frame, readCalls_append,
        readCalls_read hread, hcalls, List.append_nil]
    have hr : Reads (d.tsEvents ep x ++ frameEvent (.getRWPtr a) ptr :: (driverEvents tr ++ t₁)) :=
      ⟨a, ptr, by simp, hptr⟩
    rw [SoundTurn, hc, imp_iff_right hr, ← hread.tellsApart_iff]
    rw [took_acquisition, AcquireCmd.stamped_acquisition] at hacq
    rw [took_error, AcquireCmd.stamped_error, herr] at herr'
    have hflag : hits c'.out.error liberaErrorReading ↔ r.ret < 0 := by
      rw [herr', ← not_le]
      split <;> simp_all [hits, liberaErrorReading]
    constructor
    · rintro ⟨hcount, hf⟩
      rw [hc, hacq, add_ite_inj] at hcount
      rw [hc, hflag] at hf
      exact ⟨hcount, hf⟩
    · rintro ⟨hcount, hf⟩
      refine ⟨?_, ?_⟩
      · rw [hc, hacq, add_ite_inj]
        exact hcount
      · rw [hc, hflag]
        exact hf

/-- **When a turn counts right.** -/
theorem AcquireCmd.TurnRun.countsRight_iff (h : c.TurnRun d t e c' d') (herr : c.out.error = 0) :
    CountsRight c t c' ↔ SoundTurn d t := by
  have hframe : ∀ now t, Reads (frameEvent .now now :: t) ↔ Reads t := by
    intro now t
    refine (reads_append (t := [frameEvent .now now])).trans (or_iff_right ?_)
    rintro ⟨a, ptr, hmem, -⟩
    simp at hmem
  rcases h with ⟨now, hdur, hexp⟩ | ⟨now, hdur, hexp, h⟩ | ⟨hdur, h⟩
  · refine iff_of_true (countsRight_of_not_reads rfl rfl ?_) fun hr => ?_
    · simp [herr, hits]
    · exact absurd ((hframe _ _).1 hr) (by simp [Reads])
  · have h := h.countsRight_iff herr
    rw [SoundTurn, hframe, readCalls_frame]
    refine Iff.trans ⟨fun hc => ⟨hc.1, hc.2⟩, fun hc => ⟨hc.1, hc.2⟩⟩ h
  · exact h.countsRight_iff herr

/-! ## Over whole histories -/

/-- A live command has no error. -/
def Station.Clean (s : Station) : Prop := s.live → s.cmd.out.error = 0

/-- The move is a turn of a live command. -/
def IsTurn (m : StationMove) : Prop := m.op = .acquire ∧ m.before.live

theorem AcquireCmd.SetRun.clean {q : Request} (h : c.SetRun d q t e c' d') (he : e = .return)
    (hrun : c'.running = .normal) : c'.out.error = 0 := by
  cases h with
  | disabled => simp at hrun
  | started ep x w a => exact (prepared_cmd c q a).2.2.2
  | _ => cases he

theorem AcquireCmd.FinishRun.clean (h : c.FinishRun d t e c' d') (hrun : c'.running = .normal) :
    c'.out.error = 0 := by
  cases h with
  | goesOn hend herr => exact herr
  | _ => simp at hrun

theorem AcquireCmd.IterateRun.clean (h : c.IterateRun d t e c' d') (hrun : c'.running = .normal) :
    c'.out.error = 0 := by
  cases h with
  | missing => simp at hrun
  | unread _ _ _ hfin => exact hfin.clean hrun
  | read _ _ _ _ _ _ _ _ hfin => exact hfin.clean hrun

theorem AcquireCmd.TurnRun.clean (h : c.TurnRun d t e c' d') (hrun : c'.running = .normal) :
    c'.out.error = 0 := by
  cases h with
  | expired => simp at hrun
  | timed _ _ _ h => exact h.clean hrun
  | untimed _ h => exact h.clean hrun

/-- Every move leaves a live command without an error. -/
theorem clean_move {m : StationMove} (h : m.Valid Station.step) (hs : m.before.Clean) :
    m.after.Clean := by
  rintro ⟨hrun, hthrew⟩
  cases hop : m.op with
  | set q =>
    obtain ⟨h, ht⟩ := move_set h hop
    refine h.clean ?_ hrun
    by_contra he
    rw [ht.2 he] at hthrew
    cases hthrew
  | acquire =>
    by_cases hl : m.before.live
    · exact (move_turn h hop hl).1.clean hrun
    · obtain ⟨-, -, ha⟩ := move_idle h hop hl
      rw [ha] at hrun hthrew ⊢
      exact hs ⟨hrun, hthrew⟩

/-- **The result of a read, and what the command makes of it.** On every run `read` keeps its
documented contract under exactly the answers of `Driver.Meets`. In every history of a command, a
turn counts the acquisitions and flags the errors rightly exactly when its read is sound. -/
theorem read_contract (d : Driver) (buffer : Buffer) (addr : ℤ) (n : Word) (tr : List DrvEvent)
    (r : ReadOutcome) (s s' : Station) (ms : List StationMove) :
    ((d.read buffer addr n).Runs tr r → (d.Contract n tr r ↔ d.Meets n tr)) ∧
    (¬s.live → History Station.step s ms s' →
      ∀ m ∈ ms, IsTurn m → (CountsRight m.before.cmd m.events m.after.cmd ↔
        SoundTurn m.before.driver m.events)) := by
  refine ⟨fun h => (read_runs.1 h).contract_iff, ?_⟩
  intro hs h
  have hrule := History.rule (I := Station.Clean) (G := fun _ => True)
    (P := fun m => IsTurn m → (CountsRight m.before.cmd m.events m.after.cmd ↔
      SoundTurn m.before.driver m.events)) ?_ h (fun hl => absurd hl hs) (by simp)
  · exact hrule.1
  · intro m hm hI _
    refine ⟨?_, clean_move hm hI⟩
    rintro ⟨hop, hl⟩
    exact (move_turn hm hop hl).1.countsRight_iff (hI hl)

/-- The calls of a read of one atom of `DD` that is answered by `x`. -/
def ddCalls (x : ReadResult) : List DrvEvent :=
  let d := calmDriver.acquired liberaIopModeDd
  [d.seekEvent cspiOk, d.readEvent (some "DD") 32 x]

theorem ddCalls_runs (x : ReadResult) : ((calmDriver.acquired liberaIopModeDd).read (some "DD")
    channelDd 32).Runs (ddCalls x) (if x.rc ≠ cspiOk then ⟨-x.rc, x.data⟩ else
      ⟨x.nread.toInt, x.data⟩) :=
  read_runs.2 (.untriggered (by decide) (by decide) (.data x (by decide) rfl))

/-- The error `CSPI_E_SYSTEM` of `cspi_read` comes out as `5`. -/
theorem read_error_positive : ¬∀ (d : Driver) (buffer : Buffer) (addr : ℤ) (n : Word)
    (tr : List DrvEvent) (r : ReadOutcome), (d.read buffer addr n).Runs tr r →
      d.Contract n tr r := by
  intro h
  have hneg := (h _ _ _ _ _ _ (ddCalls_runs ⟨cspiESystem, 0, []⟩)).negative_iff.2
    ⟨_, List.mem_cons_of_mem _ List.mem_cons_self, show cspiESystem < 0 by decide⟩
  exact absurd hneg (by decide)

/-- The moves of a calm history in which one sample of `DD` is acquired. -/
def calmAcquisition : List StationOp := [.set { mode := some 1, samples := some 1 }, .acquire]

/-- The contract at a read of one atom and in that history. -/
theorem read_contract_calm :
    ((calmDriver.acquired liberaIopModeDd).Contract 32 (ddCalls ⟨cspiOk, 1, []⟩) ⟨1, []⟩ ↔
      (calmDriver.acquired liberaIopModeDd).Meets 32 (ddCalls ⟨cspiOk, 1, []⟩)) ∧
    ∃ ms s', execAll calm Station.step calmAcquisition calmStation () = some ms ∧
      History Station.step calmStation ms s' ∧ ∀ m ∈ ms, IsTurn m →
        (CountsRight m.before.cmd m.events m.after.cmd ↔
          SoundTurn m.before.driver m.events) := by
  have hread := ddCalls_runs ⟨cspiOk, 1, []⟩
  refine ⟨(read_contract _ _ _ _ _ _ calmStation calmStation []).1 hread, ?_⟩
  obtain ⟨ms, hms⟩ : ∃ ms, execAll calm Station.step calmAcquisition calmStation () = some ms :=
    Option.isSome_iff_exists.1 (by decide)
  obtain ⟨s', hh⟩ := History.of_execAll hms
  exact ⟨ms, s', hms, hh,
    (read_contract calmDriver none 0 0 [] ⟨0, []⟩ _ _ _).2 (by decide) hh⟩

end LiberaDaq
