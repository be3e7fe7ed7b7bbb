import LiberaDaq.Driver.History

/-!
# The result of a read

`LiberaBrillianceCSPIDriver::read` is documented to return the number of items read or a negative
error. The codes of CSPI are negative for errors and positive for warnings, and `read` negates
them, so an error comes out as a positive number and a warning as a negative one. This module
lists the runs of `read` (`read_runs`) and says which of them keep the documented contract
(`contract_iff`).
-/

namespace LiberaDaq

open Cspi Interaction

/-- The event of the timed waits. -/
abbrev waitEvent (ws : List (ℤ × Bitmask)) : DrvEvent := ⟨.inr .timedwaits, ws⟩

/-! ## The runs of read -/

section

variable (d : Driver) (buffer : Buffer) (addr : ℤ) (n : Word)

/-- The events of the two calls with which `read` gets data at an address. -/
abbrev Driver.seekEvent (rc : ℤ) : DrvEvent :=
  cspiEvent (.seek d.conHandle d.cfg.ddOffset d.readOrigin) rc

abbrev Driver.readEvent (x : ReadResult) : DrvEvent :=
  cspiEvent (.read d.conHandle buffer (d.readCount n)) x

/-- The runs of `read` once the trigger has come. -/
inductive Driver.DataRun : List DrvEvent → ReadOutcome → Prop
  | got (rc : ℤ) (data : List Atom) : d.cfg.mode = .sa →
      DataRun [cspiEvent (.get d.conHandle buffer) (rc, data)]
        (if rc ≠ cspiOk then ⟨-rc, data⟩ else ⟨1, data⟩)
  | elsewhere : d.cfg.mode ≠ .sa → addr ≠ channelDd → DataRun [] ⟨0, []⟩
  | unsought (rc : ℤ) : d.cfg.mode ≠ .sa → addr = channelDd → rc ≠ cspiOk →
      DataRun [d.seekEvent rc] ⟨-rc, []⟩
  | data (x : ReadResult) : d.cfg.mode ≠ .sa → addr = channelDd →
      DataRun [d.seekEvent cspiOk, d.readEvent buffer n x]
        (if x.rc ≠ cspiOk then ⟨-x.rc, x.data⟩ else ⟨x.nread.toInt, x.data⟩)

/-- The runs of `read`. -/
inductive Driver.ReadRun : List DrvEvent → ReadOutcome → Prop
  | idle : ¬d.acquiring → ReadRun [] ⟨0, []⟩
  | timedOut (ws : List (ℤ × Bitmask)) (w : ℤ × Bitmask) : d.acquiring →
      d.cfg.mask.hits wantTrigger → ws.find? endsWait = some w → w.1 = etimedout →
      ReadRun [waitEvent ws] ⟨-etimedout, []⟩
  | woken (ws : List (ℤ × Bitmask)) (w : ℤ × Bitmask) {tr : List DrvEvent} {r : ReadOutcome} :
      d.acquiring → d.cfg.mask.hits wantTrigger → ws.find? endsWait = some w → w.1 ≠ etimedout →
      d.DataRun buffer addr n tr r → ReadRun (waitEvent ws :: tr) r
  | untriggered {tr : List DrvEvent} {r : ReadOutcome} : d.acquiring →
      ¬d.cfg.mask.hits wantTrigger → d.DataRun buffer addr n tr r → ReadRun tr r

end

variable {d : Driver} {buffer : Buffer} {addr : ℤ} {n : Word} {tr : List DrvEvent} {r : ReadOutcome}

theorem waitTrigger_runs {rc : ℤ} :
    waitTrigger.Runs tr rc ↔ ∃ ws w, tr = [waitEvent ws] ∧ ws.find? endsWait = some w ∧
      rc = if w.1 = etimedout then etimedout else 0 := by
  unfold waitTrigger
  simp only [Prog.perform_bind, Prog.runs_call]
  constructor
  · rintro ⟨ws, tr', rfl, h⟩
    cases hw : ws.find? endsWait with
    | none =>
      simp only [hw, Prog.runs_call] at h
      obtain ⟨x, -⟩ := h
      exact x.elim
    | some w =>
      simp only [hw, Prog.runs_ite, Prog.runs_pure] at h
      refine ⟨ws, w, ?_, hw, ?_⟩
      · split at h <;> simp [h.1]
      · split at h
        · next hto => rw [if_pos hto, ← h.2, hto]
        · next hto => rw [if_neg hto, h.2]
  · rintro ⟨ws, w, rfl, hw, rfl⟩
    refine ⟨ws, [], rfl, ?_⟩
    simp only [hw, Prog.runs_ite, Prog.runs_pure, true_and]
    split <;> simp_all

theorem readData_runs : (d.readData buffer addr n).Runs tr r ↔ d.DataRun buffer addr n tr r := by
  unfold Driver.readData
  constructor
  · intro h
    split at h
    · next hm =>
      simp only [Prog.perform_bind, Prog.runs_call] at h
      obtain ⟨⟨rc, data⟩, tr', rfl, h⟩ := h
      have : tr' = [] ∧ r = if rc ≠ cspiOk then ⟨-rc, data⟩ else ⟨1, data⟩ := by
        split at h <;> simp_all
      obtain ⟨rfl, rfl⟩ := this
      exact .got rc data hm
    · next hm =>
      split at h
      · next ha =>
        simp only [Prog.perform_bind, Prog.runs_call] at h
        obtain ⟨rc, tr', rfl, h⟩ := h
        split at h
        · next hrc =>
          obtain ⟨rfl, rfl⟩ := h
          exact .unsought rc hm ha hrc
        · next hrc =>
          obtain rfl : rc = cspiOk := not_not.1 hrc
          simp only [Prog.runs_call] at h
          obtain ⟨x, tr', rfl, h⟩ := h
          have : tr' = [] ∧
              r = if x.rc ≠ cspiOk then ⟨-x.rc, x.data⟩ else ⟨x.nread.toInt, x.data⟩ := by
            split at h <;> simp_all
          obtain ⟨rfl, rfl⟩ := this
          exact .data x hm ha
      · next ha =>
        obtain ⟨rfl, rfl⟩ := h
        exact .elsewhere hm ha
  · rintro (⟨rc, data, hm⟩ | ⟨hm, ha⟩ | ⟨rc, hm, ha, hrc⟩ | ⟨x, hm, ha⟩)
    · simp only [if_pos hm, Prog.perform_bind, Prog.runs_call]
      refine ⟨(rc, data), [], rfl, ?_⟩
      split <;> exact ⟨rfl, rfl⟩
    · simp only [if_neg hm, if_neg ha]
      exact ⟨rfl, rfl⟩
    · simp only [if_neg hm, if_pos ha, Prog.perform_bind, Prog.runs_call]
      refine ⟨rc, [], rfl, ?_⟩
      rw [if_pos hrc]
      exact ⟨rfl, rfl⟩
    · simp only [if_neg hm, if_pos ha, Prog.perform_bind, Prog.runs_call]
      refine ⟨cspiOk, _, rfl, ?_⟩
      rw [if_neg (not_not.2 rfl)]
      refine ⟨x, [], rfl, ?_⟩
      simp only [Prog.runs_ite, Prog.runs_pure]
      split <;> simp_all

theorem read_runs : (d.read buffer addr n).Runs tr r ↔ d.ReadRun buffer addr n tr r := by
  unfold Driver.read
  constructor
  · intro h
    split at h
    · next hacq =>
      split at h
      · next htr =>
        obtain ⟨t₁, t₂, rc, rfl, hw, h⟩ := Prog.runs_bind.1 h
        obtain ⟨ws, w, rfl, hws, rfl⟩ := waitTrigger_runs.1 hw
        by_cases hto : w.1 = etimedout
        · simp only [hto, if_true, etimedout] at h
          obtain ⟨rfl, rfl⟩ := h
          exact .timedOut ws w hacq htr hws hto
        · simp only [hto, if_false, ne_eq, not_true] at h
          exact .woken ws w hacq htr hws hto (readData_runs.1 h)
      · next htr => exact .untriggered hacq htr (readData_runs.1 h)
    · next hacq =>
      obtain ⟨rfl, rfl⟩ := h
      exact .idle hacq
  · rintro (hacq | ⟨ws, w, hacq, htr, hws, hto⟩ | ⟨ws, w, hacq, htr, hws, hto, h⟩ |
      ⟨hacq, htr, h⟩)
    · rw [if_neg hacq]
      exact ⟨rfl, rfl⟩
    · rw [if_pos hacq, if_pos htr]
      refine Prog.Runs.bind (waitTrigger_runs.2 ⟨ws, w, rfl, hws, rfl⟩) ?_
      simp [hto, etimedout]
    · rw [if_pos hacq, if_pos htr]
      refine Prog.Runs.bind (waitTrigger_runs.2 ⟨ws, w, rfl, hws, rfl⟩) ?_
      simpa [hto] using readData_runs.2 h
    · rw [if_pos hacq, if_neg htr]
      exact readData_runs.2 h

/-! ## The contract -/

/-- The wait for the trigger that ended the loop satisfies `P`. -/
def WaitEnded (P : ℤ → Prop) (ws : List (ℤ × Bitmask)) : Prop :=
  ∃ w, ws.find? endsWait = some w ∧ P w.1

/-- The call failed: an error code of CSPI, or a wait that ended without a trigger. -/
def CallFailed : DrvEvent → Prop
  | ⟨.inl (.seek _ _ _), rc⟩ => (0 : ℤ) > rc
  | ⟨.inl (.read _ _ _), x⟩ => x.rc < 0
  | ⟨.inl (.get _ _), x⟩ => x.1 < 0
  | ⟨.inr .timedwaits, ws⟩ => WaitEnded (· ≠ 0) ws
  | _ => False

/-- The number of atoms that the call stored. -/
def atomsStored : DrvEvent → ℕ
  | ⟨.inl (.read _ _ _), x⟩ => if 0 ≤ x.rc then x.nread.toNat else 0
  | ⟨.inl (.get _ _), x⟩ => if 0 ≤ x.1 then 1 else 0
  | _ => 0

/-- The number of atoms that the calls of a run stored. -/
def stored (tr : List DrvEvent) : ℕ := (tr.map atomsStored).sum

/-- The number of atoms of the configured mode that fit in `bcount` bytes. -/
def Driver.room (d : Driver) (bcount : Word) : ℕ := bcount.toInt.toNat / d.cfg.datasize.toNat

/-- The documented result of `read`: negative exactly when a call failed, and otherwise the number
of atoms stored, which fit in the buffer. -/
structure Driver.Contract (d : Driver) (bcount : Word) (tr : List DrvEvent) (r : ReadOutcome) :
    Prop where
  negative_iff : r.ret < 0 ↔ ∃ e ∈ tr, CallFailed e
  count : (¬∃ e ∈ tr, CallFailed e) → r.ret = stored tr ∧ stored tr ≤ d.room bcount

/-! ## When the contract is kept -/

/-- The call succeeded without a warning. -/
def Quiet : DrvEvent → Prop
  | ⟨.inl (.seek _ _ _), rc⟩ => rc = cspiOk
  | ⟨.inl (.read _ _ _), x⟩ => x.rc = cspiOk
  | ⟨.inl (.get _ _), x⟩ => x.1 = cspiOk
  | ⟨.inr .timedwaits, ws⟩ => WaitEnded (· = 0) ws
  | _ => True

/-- The wait for the trigger timed out. -/
def TimedOut : DrvEvent → Prop
  | ⟨.inr .timedwaits, ws⟩ => WaitEnded (· = etimedout) ws
  | _ => False

/-- The wait for the trigger failed in another way. -/
def Lapsed : DrvEvent → Prop
  | ⟨.inr .timedwaits, ws⟩ => WaitEnded (fun rc => rc ≠ 0 ∧ rc ≠ etimedout) ws
  | _ => False

/-- The call gave a warning, or a count that is negative as an `int`. -/
def Warned : DrvEvent → Prop
  | ⟨.inl (.seek _ _ _), rc⟩ => (0 : ℤ) < rc
  | ⟨.inl (.read _ _ _), x⟩ => 0 < x.rc ∨ x.rc = cspiOk ∧ x.nread.toInt < 0
  | ⟨.inl (.get _ _), x⟩ => 0 < x.1
  | _ => False

/-- The answers under which `read` keeps its contract: no call gave an error or a warning and what
was stored fits; or the wait for the trigger timed out; or it failed in another way, which `read`
passes over, and a warning of the library made the result negative all the same. -/
def Driver.Meets (d : Driver) (bcount : Word) (tr : List DrvEvent) : Prop :=
  ((∀ e ∈ tr, Quiet e) ∧ stored tr ≤ d.room bcount) ∨ (∃ e ∈ tr, TimedOut e) ∨
    ((∃ e ∈ tr, Lapsed e) ∧ ∃ e ∈ tr, Warned e)

theorem Quiet.not_failed {e : DrvEvent} (h : Quiet e) : ¬CallFailed e := by
  rcases e with ⟨c | c, x⟩
  · cases c with
    | seek => exact fun hf => absurd h hf.ne
    | read => exact fun hf => absurd h hf.ne
    | get => exact fun hf => absurd h hf.ne
    | _ => exact id
  · cases c with
    | timedwaits =>
      rintro ⟨w, hw, hne⟩
      obtain ⟨w', hw', he⟩ := h
      rw [hw, Option.some.injEq] at hw'
      exact hne (hw' ▸ he)
    | _ => exact id

theorem room_lt : d.room n < 2 ^ 31 := by
  have hn : n.toInt < 2 ^ 31 := BitVec.toInt_lt
  have hd : n.toInt.toNat / d.cfg.datasize.toNat ≤ n.toInt.toNat := Nat.div_le_self _ _
  unfold Driver.room
  omega

/-- Once the trigger has come, a negative result is a warning of the library. -/
theorem Driver.DataRun.negative_iff (h : d.DataRun buffer addr n tr r) :
    r.ret < 0 ↔ ∃ e ∈ tr, Warned e := by
  rcases h with ⟨rc, data, hm⟩ | ⟨hm, ha⟩ | ⟨rc, hm, ha, hrc⟩ | ⟨x, hm, ha⟩
  · simp only [List.mem_singleton, exists_eq_left, Warned]
    split <;> simp_all
  · simp
  · simp [Warned]
  · simp only [List.mem_cons, List.not_mem_nil, or_false, exists_eq_or_imp, exists_eq_left, Warned,
      lt_irrefl, false_or]
    split <;> simp_all

/-- Once the trigger has come, an error of the library gives a positive result. -/
theorem Driver.DataRun.pos_of_failed (h : d.DataRun buffer addr n tr r)
    (hf : ∃ e ∈ tr, CallFailed e) :
    0 < r.ret := by
  rcases h with ⟨rc, data, hm⟩ | ⟨hm, ha⟩ | ⟨rc, hm, ha, hrc⟩ | ⟨x, hm, ha⟩
  · obtain ⟨e, he, hf⟩ := hf
    obtain rfl := List.mem_singleton.1 he
    have hrc : rc < 0 := hf
    rw [if_pos hrc.ne]
    simpa using hrc
  · simp at hf
  · simpa [CallFailed] using hf
  · have hrc : x.rc < 0 := by simpa [CallFailed] using hf
    rw [if_pos hrc.ne]
    simpa using hrc

/-- Once the trigger has come, a run without an error or a warning returns what it stored. -/
theorem Driver.DataRun.ret_of_quiet (h : d.DataRun buffer addr n tr r) (hq : ∀ e ∈ tr, Quiet e)
    (hint : stored tr < 2 ^ 31) : r.ret = stored tr := by
  rcases h with ⟨rc, data, hm⟩ | ⟨hm, ha⟩ | ⟨rc, hm, ha, hrc⟩ | ⟨x, hm, ha⟩
  · have hrc : rc = cspiOk := hq _ (List.mem_singleton.2 rfl)
    simp [hrc, stored, atomsStored]
  · rfl
  · exact absurd (hq _ (List.mem_singleton.2 rfl)) hrc
  · have hrc : x.rc = cspiOk := hq (d.readEvent buffer n x) (by simp)
    have hs : stored [d.seekEvent cspiOk, d.readEvent buffer n x] = x.nread.toNat := by
      simp [stored, atomsStored, hrc]
    rw [hs] at hint ⊢
    rw [if_neg (not_not.2 hrc)]
    exact BitVec.toInt_eq_toNat_of_lt (by omega)

/-- A call of the library that gave neither an error nor a warning succeeded. -/
theorem Driver.DataRun.quiet (h : d.DataRun buffer addr n tr r) (hf : ¬∃ e ∈ tr, CallFailed e)
    (hw : ¬∃ e ∈ tr, Warned e) : ∀ e ∈ tr, Quiet e := by
  push Not at hf hw
  intro e he
  have hf := hf e he
  have hw := hw e he
  rcases h with ⟨rc, data, hm⟩ | ⟨hm, ha⟩ | ⟨rc, hm, ha, hrc⟩ | ⟨x, hm, ha⟩
  · obtain rfl := List.mem_singleton.1 he
    simp only [CallFailed, Warned, Quiet, cspiOk] at *
    omega
  · simp at he
  · obtain rfl := List.mem_singleton.1 he
    simp only [CallFailed, Warned, Quiet, cspiOk] at *
    omega
  · rcases List.mem_cons.1 he with rfl | he
    · rfl
    · obtain rfl := List.mem_singleton.1 he
      simp only [CallFailed, Warned, Quiet, not_or, not_and, cspiOk] at *
      omega

/-- Without a warning, what a run stored can be returned. -/
theorem Driver.DataRun.stored_lt (h : d.DataRun buffer addr n tr r) (hq : ∀ e ∈ tr, Quiet e)
    (hw : ¬∃ e ∈ tr, Warned e) : stored tr < 2 ^ 31 := by
  push Not at hw
  rcases h with ⟨rc, data, hm⟩ | ⟨hm, ha⟩ | ⟨rc, hm, ha, hrc⟩ | ⟨x, hm, ha⟩
  · simp only [stored, List.map_cons, List.map_nil, atomsStored, List.sum_singleton]
    split <;> omega
  · decide
  · simp [stored, atomsStored]
  · have hrc : x.rc = cspiOk := hq (d.readEvent buffer n x) (by simp)
    have hx : ¬x.nread.toInt < 0 := fun hx =>
      hw (d.readEvent buffer n x) (by simp) (.inr ⟨hrc, hx⟩)
    have hs : stored [d.seekEvent cspiOk, d.readEvent buffer n x] = x.nread.toNat := by
      simp [stored, atomsStored, hrc]
    rw [hs]
    have := x.nread.isLt
    rw [BitVec.toInt_eq_toNat_cond] at hx
    split at hx <;> omega

/-- Once the trigger has come, the calls of a run are those of the library. -/
theorem Driver.DataRun.library (h : d.DataRun buffer addr n tr r) {e : DrvEvent} (he : e ∈ tr) :
    ∃ c x, e = cspiEvent c x := by
  rcases h with ⟨rc, data, hm⟩ | ⟨hm, ha⟩ | ⟨rc, hm, ha, hrc⟩ | ⟨x, hm, ha⟩
  · exact ⟨_, _, List.mem_singleton.1 he⟩
  · simp at he
  · exact ⟨_, _, List.mem_singleton.1 he⟩
  · rcases List.mem_cons.1 he with rfl | he
    · exact ⟨_, _, rfl⟩
    · exact ⟨_, _, List.mem_singleton.1 he⟩

theorem Driver.DataRun.not_timedOut (h : d.DataRun buffer addr n tr r) : ¬∃ e ∈ tr, TimedOut e := by
  rintro ⟨e, he, ht⟩
  obtain ⟨c, x, rfl⟩ := h.library he
  exact ht

theorem Driver.DataRun.not_lapsed (h : d.DataRun buffer addr n tr r) : ¬∃ e ∈ tr, Lapsed e := by
  rintro ⟨e, he, hl⟩
  obtain ⟨c, x, rfl⟩ := h.library he
  exact hl

theorem not_failed_of_quiet (hq : ∀ e ∈ tr, Quiet e) : ¬∃ e ∈ tr, CallFailed e := by
  rintro ⟨e, he, hf⟩
  exact (hq e he).not_failed hf

/-- Once the trigger has come, the sign of the result is right only without errors and warnings. -/
theorem Driver.DataRun.sign_iff (h : d.DataRun buffer addr n tr r) :
    (r.ret < 0 ↔ ∃ e ∈ tr, CallFailed e) ↔ (∀ e ∈ tr, Quiet e) ∧ stored tr < 2 ^ 31 := by
  constructor
  · intro hneg
    have hf : ¬∃ e ∈ tr, CallFailed e := by
      intro hf
      have hpos := h.pos_of_failed hf
      have := hneg.2 hf
      omega
    have hw : ¬∃ e ∈ tr, Warned e := fun hw => hf (hneg.1 (h.negative_iff.2 hw))
    have hq := h.quiet hf hw
    exact ⟨hq, h.stored_lt hq hw⟩
  · rintro ⟨hq, hint⟩
    have hret := h.ret_of_quiet hq hint
    exact iff_of_false (by omega) (not_failed_of_quiet hq)

/-- Once the trigger has come, the contract is kept when no call gave an error or a warning. -/
theorem Driver.DataRun.contract_iff (h : d.DataRun buffer addr n tr r) :
    d.Contract n tr r ↔ (∀ e ∈ tr, Quiet e) ∧ stored tr ≤ d.room n := by
  constructor
  · rintro ⟨hneg, hcount⟩
    have hq := (h.sign_iff.1 hneg).1
    exact ⟨hq, (hcount (not_failed_of_quiet hq)).2⟩
  · rintro ⟨hq, hroom⟩
    have hint := hroom.trans_lt room_lt
    exact ⟨h.sign_iff.2 ⟨hq, hint⟩, fun _ => ⟨h.ret_of_quiet hq hint, hroom⟩⟩

@[simp] theorem stored_nil : stored [] = 0 := rfl

@[simp] theorem stored_waitEvent {ws : List (ℤ × Bitmask)} :
    stored (waitEvent ws :: tr) = stored tr := by simp [stored, atomsStored]

section

variable {ws : List (ℤ × Bitmask)} {w : ℤ × Bitmask}

theorem waitEnded_iff (P : ℤ → Prop) (h : ws.find? endsWait = some w) :
    WaitEnded P ws ↔ P w.1 := by simp [WaitEnded, h]

theorem callFailed_waitEvent (h : ws.find? endsWait = some w) :
    CallFailed (waitEvent ws) ↔ w.1 ≠ 0 := waitEnded_iff (· ≠ 0) h

theorem quiet_waitEvent (h : ws.find? endsWait = some w) :
    Quiet (waitEvent ws) ↔ w.1 = 0 := waitEnded_iff (· = 0) h

theorem timedOut_waitEvent (h : ws.find? endsWait = some w) :
    TimedOut (waitEvent ws) ↔ w.1 = etimedout := waitEnded_iff (· = etimedout) h

theorem lapsed_waitEvent (h : ws.find? endsWait = some w) :
    Lapsed (waitEvent ws) ↔ w.1 ≠ 0 ∧ w.1 ≠ etimedout :=
  waitEnded_iff (fun rc => rc ≠ 0 ∧ rc ≠ etimedout) h

/-- After a wait that found the trigger, `read` keeps its contract if the rest of the run does. -/
theorem contract_waitEvent (h : ws.find? endsWait = some w) (hw : w.1 = 0) :
    d.Contract n (waitEvent ws :: tr) r ↔ d.Contract n tr r := by
  have hf : ¬CallFailed (waitEvent ws) := by simpa [callFailed_waitEvent h] using hw
  have he : (∃ e ∈ waitEvent ws :: tr, CallFailed e) ↔ ∃ e ∈ tr, CallFailed e := by simp [hf]
  constructor
  · rintro ⟨hneg, hcount⟩
    rw [he] at hneg hcount
    rw [stored_waitEvent] at hcount
    exact ⟨hneg, hcount⟩
  · rintro ⟨hneg, hcount⟩
    rw [← he] at hneg hcount
    rw [← stored_waitEvent] at hcount
    exact ⟨hneg, hcount⟩

/-- After a wait that failed, `read` keeps its contract when the result is negative. -/
theorem contract_waitEvent_of_failed (h : ws.find? endsWait = some w) (hw : w.1 ≠ 0) :
    d.Contract n (waitEvent ws :: tr) r ↔ r.ret < 0 := by
  have hf : ∃ e ∈ waitEvent ws :: tr, CallFailed e :=
    ⟨_, List.mem_cons_self, (callFailed_waitEvent h).2 hw⟩
  exact ⟨fun hc => hc.negative_iff.2 hf, fun hr => ⟨iff_of_true hr hf, fun hn => absurd hf hn⟩⟩

end

/-- **When `read` keeps its contract.** -/
theorem Driver.ReadRun.contract_iff (h : d.ReadRun buffer addr n tr r) :
    d.Contract n tr r ↔ d.Meets n tr := by
  rcases h with hacq | ⟨ws, w, hacq, htr, hws, hto⟩ | ⟨ws, w, hacq, htr, hws, hto, h⟩ |
    ⟨hacq, htr, h⟩
  · refine iff_of_true ⟨by simp, fun _ => by simp⟩ (.inl (by simp))
  · rw [contract_waitEvent_of_failed hws (by simp [hto, etimedout])]
    exact iff_of_true (by simp [etimedout])
      (.inr (.inl ⟨_, List.mem_singleton.2 rfl, (timedOut_waitEvent hws).2 hto⟩))
  · have hnot : ¬TimedOut (waitEvent ws) := by rwa [timedOut_waitEvent hws]
    by_cases hw : w.1 = 0
    · have hq : Quiet (waitEvent ws) := (quiet_waitEvent hws).2 hw
      have hl : ¬Lapsed (waitEvent ws) := by simp [lapsed_waitEvent hws, hw]
      rw [contract_waitEvent hws hw, h.contract_iff]
      simp only [Driver.Meets, stored_waitEvent, List.mem_cons, exists_eq_or_imp,
        forall_eq_or_imp, h.not_timedOut, h.not_lapsed, hnot, hl, hq, true_and, false_and,
        or_false]
    · have hq : ¬Quiet (waitEvent ws) := by rwa [quiet_waitEvent hws]
      have hl : Lapsed (waitEvent ws) := (lapsed_waitEvent hws).2 ⟨hw, hto⟩
      have hwarn : ¬Warned (waitEvent ws) := id
      rw [contract_waitEvent_of_failed hws hw, h.negative_iff]
      simp [Driver.Meets, h.not_timedOut, hnot, hl, hq, hwarn]
  · rw [h.contract_iff]
    simp only [Driver.Meets, h.not_timedOut, h.not_lapsed, false_and, or_false]

/-! ## When the sign tells what happened -/

/-- The result is negative exactly when a call failed, and otherwise exactly when atoms were
stored. -/
def TellsApart (tr : List DrvEvent) (r : ReadOutcome) : Prop :=
  (0 ≤ r.ret ↔ 0 < stored tr) ∧ (r.ret < 0 ↔ ∃ e ∈ tr, CallFailed e)

/-- The driver acquires, and under the answers no call gave an error or a warning and atoms were
stored; or the wait for the trigger timed out; or it failed in another way and a warning of the
library that came with no atom made the result negative all the same. -/
def Driver.Sound (d : Driver) (tr : List DrvEvent) : Prop :=
  d.acquiring ∧ (((∀ e ∈ tr, Quiet e) ∧ 0 < stored tr ∧ stored tr < 2 ^ 31) ∨
    (∃ e ∈ tr, TimedOut e) ∨ ((∃ e ∈ tr, Lapsed e) ∧ (∃ e ∈ tr, Warned e) ∧ stored tr = 0))

theorem Driver.DataRun.tellsApart_iff (h : d.DataRun buffer addr n tr r) :
    TellsApart tr r ↔ (∀ e ∈ tr, Quiet e) ∧ 0 < stored tr ∧ stored tr < 2 ^ 31 := by
  rw [TellsApart, h.sign_iff]
  constructor
  · rintro ⟨hpos, hq, hint⟩
    have hret := h.ret_of_quiet hq hint
    exact ⟨hq, hpos.1 (by omega), hint⟩
  · rintro ⟨hq, hpos, hint⟩
    have hret := h.ret_of_quiet hq hint
    exact ⟨iff_of_true (by omega) hpos, hq, hint⟩

/-- When the sign of the result of `read` tells what happened. -/
theorem Driver.ReadRun.tellsApart_iff (h : d.ReadRun buffer addr n tr r) :
    TellsApart tr r ↔ d.Sound tr := by
  rcases h with hacq | ⟨ws, w, hacq, htr, hws, hto⟩ | ⟨ws, w, hacq, htr, hws, hto, h⟩ |
    ⟨hacq, htr, h⟩
  · exact iff_of_false (by simp [TellsApart]) fun hs => hacq hs.1
  · have hto' := (timedOut_waitEvent hws).2 hto
    have hf : CallFailed (waitEvent ws) := by simp [callFailed_waitEvent hws, hto, etimedout]
    refine iff_of_true ⟨?_, ?_⟩ ⟨hacq, .inr (.inl ⟨_, List.mem_singleton.2 rfl, hto'⟩)⟩
    · simp [etimedout]
    · exact iff_of_true (by simp [etimedout]) ⟨_, List.mem_singleton.2 rfl, hf⟩
  · have hnot : ¬TimedOut (waitEvent ws) := by rwa [timedOut_waitEvent hws]
    by_cases hw : w.1 = 0
    · have hq : Quiet (waitEvent ws) := (quiet_waitEvent hws).2 hw
      have hl : ¬Lapsed (waitEvent ws) := by simp [lapsed_waitEvent hws, hw]
      have hf : ¬CallFailed (waitEvent ws) := hq.not_failed
      rw [Driver.Sound, and_iff_right hacq]
      simp only [TellsApart, stored_waitEvent, List.mem_cons, exists_eq_or_imp, forall_eq_or_imp,
        hf, hq, hnot, hl, h.not_timedOut, h.not_lapsed, true_and, false_or, false_and, or_false]
      exact h.tellsApart_iff
    · have hq : ¬Quiet (waitEvent ws) := by rwa [quiet_waitEvent hws]
      have hl : Lapsed (waitEvent ws) := (lapsed_waitEvent hws).2 ⟨hw, hto⟩
      have hf : CallFailed (waitEvent ws) := (callFailed_waitEvent hws).2 hw
      have hwarn : ¬Warned (waitEvent ws) := id
      have hneg := h.negative_iff
      rw [Driver.Sound, and_iff_right hacq]
      simp only [TellsApart, stored_waitEvent, List.mem_cons, exists_eq_or_imp, forall_eq_or_imp,
        hf, hq, hnot, hl, hwarn, h.not_timedOut, true_or, false_or, false_and, iff_true, true_and,
        ← hneg]
      omega
  · rw [h.tellsApart_iff, Driver.Sound, and_iff_right hacq]
    simp only [h.not_timedOut, h.not_lapsed, false_and, or_false]

end LiberaDaq
