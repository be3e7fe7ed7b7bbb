import LiberaDaq.Cspi.Codes
import LiberaDaq.Interaction.Feed

/-!
# The status of the PLL

`ebpp_get_pllparam` asks the PLL daemon for its status: it empties the pipe that the daemon writes
to, `ebpp_pll_clearstatus`, and reads the three fields of a status message from it afterwards,
`ebpp_pll_getstatus`. What the pipe answers to the reads comes as it likes: bytes, none of them when
nobody has the pipe open for writing, or an error.

Both loops end when the pipe is empty, but neither looks for the end of the file
(`pllStatus_ends_iff`), and the reads of a field ask for as many bytes as the whole field has, also
when a part of it has come (`pllBuffer_kept_iff`).
-/

namespace LiberaDaq.Cspi

open LiberaDaq.Interaction

def EAGAIN : ℤ := 11

/-- What `read` gives: bytes, none of them at the end of the file, or an error with its `errno`. -/
inductive PipeRead
  | data (bs : List (BitVec 8))
  | failed (errno : ℤ)
  deriving DecidableEq, Repr

/-- The bytes that were read. -/
def PipeRead.bytes : PipeRead → List (BitVec 8)
  | .data bs => bs
  | .failed _ => []

/-- The bytes that a number of reads gave. -/
def bytesOf (gs : List PipeRead) : List (BitVec 8) := gs.flatMap PipeRead.bytes

@[simp] theorem bytesOf_nil : bytesOf [] = [] := rfl

@[simp] theorem bytesOf_append (gs gs' : List PipeRead) :
    bytesOf (gs ++ gs') = bytesOf gs ++ bytesOf gs' := List.flatMap_append

@[simp] theorem bytesOf_singleton (g : PipeRead) : bytesOf [g] = g.bytes := by simp [bytesOf]

/-! ## The code -/

/-- The variables of `ebpp_pll_clearstatus`, and `errno`. -/
structure Clearing where
  ret : ℤ
  errno : ℤ

/-- The body of the loop of `ebpp_pll_clearstatus`. A read that succeeds leaves `errno` alone. -/
def Clearing.turn (c : Clearing) : PipeRead → Clearing
  | .data bs => { c with ret := bs.length }
  | .failed errno => ⟨-1, errno⟩

def Clearing.more (c : Clearing) : Bool := c.ret ≥ 0 ∧ c.errno ≠ EAGAIN

/-- `ebpp_pll_clearstatus`, with at most `n` reads, and the number of its reads. -/
def ebppPllClearstatus (errno : ℤ) (rs : ℕ → PipeRead) (n : ℕ) : Option (ℤ × ℕ) := do
  let (c, k) ← feed Clearing.turn Clearing.more n rs ⟨0, errno⟩
  pure (if c.ret < 0 ∧ c.errno ≠ EAGAIN then cspiOk else cspiESystem, k)

/-- The variables of `read_pll_status_buffer`, with what it stored from the address `buf` on and how
long it slept. -/
structure Filling where
  ret : ℤ
  len : ℕ
  timeout : ℕ
  inc : ℕ
  count : ℤ
  mem : ℕ → Option (BitVec 8)
  slept : List ℕ

def Filling.start : Filling := ⟨0, 0, 0, 1, 5, fun _ => none, []⟩

/-- The body of the loop of `read_pll_status_buffer`. -/
def Filling.turn (s : Filling) : PipeRead → Filling
  | .data bs =>
    { s with
      ret := bs.length
      mem := fun a => if s.len ≤ a ∧ a < s.len + bs.length then bs[a - s.len]? else s.mem a
      len := s.len + bs.length }
  | .failed errno =>
    if errno = EAGAIN then
      { s with
        ret := 0
        count := s.count - 1
        timeout := s.inc
        inc := s.inc * 10
        slept := s.slept ++ [s.timeout] }
    else { s with ret := -1 }

def Filling.more (size : ℕ) (s : Filling) : Bool := s.ret ≥ 0 ∧ s.len < size ∧ s.count ≠ 0

/-- `read_pll_status_buffer`, with at most `n` reads: what it returns, the variables at its end and
the number of its reads. -/
def readPllStatusBuffer (size : ℕ) (rs : ℕ → PipeRead) (n : ℕ) : Option (Bool × Filling × ℕ) := do
  let (s, k) ← feed Filling.turn (Filling.more size) n rs .start
  pure (s.len = size, s, k)

/-- The sizes of `report_stseqn`, `mt_stat` and `st_stat`. -/
def stseqnBytes : ℕ := 4

def mtBytes : ℕ := 56

def stBytes : ℕ := 32

/-- `ebpp_pll_getstatus`, with what each of its calls stored and the number of its reads. -/
def ebppPllGetstatus (rs : ℕ → PipeRead) (n : ℕ) : Option (ℤ × List (Filling × ℕ)) := do
  let (status, seq, i) ← readPllStatusBuffer stseqnBytes rs n
  if status then do
    let rs := later rs i
    let (status, mt, j) ← readPllStatusBuffer mtBytes rs n
    if status then do
      let rs := later rs j
      let (status, st, k) ← readPllStatusBuffer stBytes rs n
      pure (if status then cspiOk else cspiESystem, [(seq, i), (mt, j), (st, k)])
    else pure (cspiESystem, [(seq, i), (mt, j)])
  else pure (cspiESystem, [(seq, i)])

/-! ## Emptying the pipe -/

/-- The pipe is empty, or nobody has it open for writing. -/
def PipeRead.Drained (g : PipeRead) : Prop := g = .failed EAGAIN ∨ g = .data []

/-- `ebpp_pll_clearstatus` ends after the first read that finds the pipe empty or without a
writer. -/
def Clears (errno : ℤ) (rs : ℕ → PipeRead) : Prop :=
  ∃ k, (rs k).Drained ∧ (∀ j < k, ¬(rs j).Drained) ∧
    ∃ n rc, ebppPllClearstatus errno rs n = some (rc, k + 1)

variable {errno : ℤ} {rs : ℕ → PipeRead} {gs : List PipeRead} {size n k : ℕ}

theorem clearing_more {c : Clearing} {g : PipeRead} :
    (c.turn g).more = true ↔ (∃ bs, g = .data bs) ∧ c.errno ≠ EAGAIN := by
  cases g with
  | data bs => simp [Clearing.turn, Clearing.more]
  | failed e => simp [Clearing.turn, Clearing.more]

/-- Reads that succeed leave `errno` as it is. -/
theorem clearing_errno {c : Clearing} (h : ∀ g ∈ gs, ∃ bs, g = .data bs) :
    (gs.foldl Clearing.turn c).errno = c.errno := by
  induction gs generalizing c with
  | nil => rfl
  | cons g gs ih =>
    obtain ⟨⟨bs, rfl⟩, hrest⟩ := List.forall_mem_cons.1 h
    rw [List.foldl_cons, ih hrest]
    rfl

/-- The loop goes on while the reads succeed, unless `errno` said `EAGAIN` before. -/
theorem clearing_goes :
    Goes Clearing.turn Clearing.more rs ⟨0, errno⟩ k ↔
      ∀ j < k, (∃ bs, rs j = .data bs) ∧ errno ≠ EAGAIN := by
  induction k with
  | zero => simp
  | succ k ih =>
    rw [goes_succ, ih, Nat.forall_lt_succ_right]
    refine and_congr_right fun hbefore => ?_
    have hdata : ∀ g ∈ answers rs k, ∃ bs, g = .data bs := by
      intro g hg
      obtain ⟨j, hj, rfl⟩ := mem_answers.1 hg
      exact (hbefore j hj).1
    rw [answers_succ, List.foldl_append, List.foldl_cons, List.foldl_nil, clearing_more,
      clearing_errno hdata]

/-- The loop ends with the first read that fails, or with the first one. -/
theorem clearstatus_reads :
    (∃ n rc, ebppPllClearstatus errno rs n = some (rc, k + 1)) ↔
      (∀ j < k, (∃ bs, rs j = .data bs) ∧ errno ≠ EAGAIN) ∧
        ((∃ e, rs k = .failed e) ∨ errno = EAGAIN) := by
  have hlast : (∀ j < k, (∃ bs, rs j = .data bs) ∧ errno ≠ EAGAIN) →
      (((answers rs (k + 1)).foldl Clearing.turn ⟨0, errno⟩).more = false ↔
        (∃ e, rs k = .failed e) ∨ errno = EAGAIN) := by
    intro hbefore
    have hgoes : Goes Clearing.turn Clearing.more rs ⟨0, errno⟩ (k + 1) ↔ _ := clearing_goes
    rw [goes_succ, clearing_goes, Nat.forall_lt_succ_right, and_congr_right_iff] at hgoes
    rw [← Bool.not_eq_true, hgoes hbefore]
    cases rs k <;> simp
  constructor
  · rintro ⟨n, rc, h⟩
    obtain ⟨⟨c, k'⟩, hfeed, heq⟩ := Option.bind_eq_some_iff.1 h
    obtain ⟨-, rfl⟩ := Prod.mk.inj (Option.some.inj heq)
    obtain ⟨j, hj, rfl, hgoes, hstop⟩ := exists_feed.1 ⟨n, hfeed⟩
    obtain rfl : k = j := by omega
    have hbefore := clearing_goes.1 hgoes
    exact ⟨hbefore, (hlast hbefore).1 hstop⟩
  · rintro ⟨hbefore, hend⟩
    obtain ⟨n, hfeed⟩ := exists_feed.2
      ⟨k, rfl, rfl, clearing_goes.2 hbefore, (hlast hbefore).2 hend⟩
    exact ⟨n, _, Option.bind_eq_some_iff.2 ⟨_, hfeed, rfl⟩⟩

/-- **When emptying the pipe ends as it should.** -/
theorem clears_iff :
    Clears errno rs ↔ (errno = EAGAIN ∧ (rs 0).Drained) ∨
      (errno ≠ EAGAIN ∧ ∃ k, rs k = .failed EAGAIN ∧ ∀ j < k, ∃ b bs, rs j = .data (b :: bs)) := by
  simp only [Clears, clearstatus_reads]
  by_cases herrno : errno = EAGAIN
  · simp only [herrno, ne_eq, not_true_eq_false, and_false, or_true, and_true, true_and,
      false_and, or_false]
    constructor
    · rintro ⟨k, hk, -, hfirst⟩
      obtain rfl : k = 0 := by
        by_contra hne
        exact hfirst 0 (by omega)
      exact hk
    · intro h
      exact ⟨0, h, by simp, by simp⟩
  · simp only [herrno, ne_eq, not_false_eq_true, and_true, or_false, true_and, false_and, false_or]
    refine exists_congr fun k => ?_
    constructor
    · rintro ⟨hk, hbefore, hdata, e, he⟩
      refine ⟨?_, fun j hj => ?_⟩
      · rcases hk with hk | hk
        · exact hk
        · rw [he] at hk
          cases hk
      · obtain ⟨bs, hbs⟩ := hdata j hj
        cases bs with
        | nil => exact absurd (.inr hbs) (hbefore j hj)
        | cons b bs => exact ⟨b, bs, hbs⟩
    · rintro ⟨hk, hdata⟩
      refine ⟨.inl hk, fun j hj => ?_, fun j hj => ?_, _, hk⟩
      · obtain ⟨b, bs, hbs⟩ := hdata j hj
        simp [PipeRead.Drained, hbs]
      · obtain ⟨b, bs, hbs⟩ := hdata j hj
        exact ⟨_, hbs⟩

/-! ## Reading a field -/

/-- The answers `EAGAIN`. -/
def busy (gs : List PipeRead) : ℕ := gs.count (.failed EAGAIN)

/-- The answers without data. -/
def blanks (gs : List PipeRead) : ℕ := gs.countP fun g => g.bytes = []

theorem busy_concat (gs : List PipeRead) (g : PipeRead) :
    busy (gs ++ [g]) = busy gs + if g = .failed EAGAIN then 1 else 0 := by
  simp [busy, List.count_singleton]

theorem blanks_concat (gs : List PipeRead) (g : PipeRead) :
    blanks (gs ++ [g]) = blanks gs + if g.bytes = [] then 1 else 0 := by
  simp [blanks, List.countP_singleton]

/-- The answers give as many bytes as asked for, or an error other than `EAGAIN`, or they have said
`EAGAIN` five times. -/
def Finished (size : ℕ) (gs : List PipeRead) : Prop :=
  size ≤ (bytesOf gs).length ∨ (∃ errno ≠ EAGAIN, .failed errno ∈ gs) ∨ 5 ≤ busy gs

/-- Bytes stored behind others. -/
theorem append_getElem? (bs cs : List (BitVec 8)) (a : ℕ) :
    (if bs.length ≤ a ∧ a < bs.length + cs.length then cs[a - bs.length]? else bs[a]?) =
      (bs ++ cs)[a]? := by
  rw [List.getElem?_append]
  by_cases hlow : bs.length ≤ a
  · rw [if_neg (by omega : ¬a < bs.length)]
    by_cases hhigh : a < bs.length + cs.length
    · rw [if_pos ⟨hlow, hhigh⟩]
    · rw [if_neg fun h => hhigh h.2, List.getElem?_eq_none hlow, List.getElem?_eq_none (by omega)]
  · rw [if_neg fun h => hlow h.1, if_pos (by omega : a < bs.length)]

/-- The intervals that a call waits, in microseconds. -/
def interval : ℕ → ℕ
  | 0 => 0
  | i + 1 => 10 ^ i

/-- The variables after a number of reads. -/
structure Filled (gs : List PipeRead) (s : Filling) : Prop where
  len : s.len = (bytesOf gs).length
  count : s.count = 5 - busy gs
  mem : s.mem = fun a => (bytesOf gs)[a]?
  timeout : s.timeout = interval (busy gs)
  inc : s.inc = interval (busy gs + 1)
  slept : s.slept = (List.range (busy gs)).map interval

theorem Filled.turn {s : Filling} (h : Filled gs s) (g : PipeRead) :
    Filled (gs ++ [g]) (s.turn g) := by
  obtain ⟨hlen, hcount, hmem, htimeout, hinc, hslept⟩ := h
  cases g with
  | data bs =>
    have hbusy : busy (gs ++ [.data bs]) = busy gs := by simp [busy_concat]
    refine ⟨?_, ?_, ?_, ?_, ?_, ?_⟩
    · simp [Filling.turn, hlen, PipeRead.bytes]
    · rw [hbusy, Filling.turn, hcount]
    · funext a
      rw [bytesOf_append, bytesOf_singleton, PipeRead.bytes, ← append_getElem?, Filling.turn, hlen,
        hmem]
    · rw [hbusy, Filling.turn, htimeout]
    · rw [hbusy, Filling.turn, hinc]
    · rw [hbusy, Filling.turn, hslept]
  | failed errno =>
    by_cases herrno : errno = EAGAIN
    · subst herrno
      have hbusy : busy (gs ++ [.failed EAGAIN]) = busy gs + 1 := by simp [busy_concat]
      refine ⟨?_, ?_, ?_, ?_, ?_, ?_⟩
      · simp [Filling.turn, hlen, PipeRead.bytes]
      · simp only [hbusy, Filling.turn, hcount, if_true]
        omega
      · simp [Filling.turn, hmem, PipeRead.bytes]
      · simp [hbusy, Filling.turn, hinc]
      · simp [hbusy, Filling.turn, hinc, interval, Nat.pow_succ]
      · simp [hbusy, Filling.turn, hslept, htimeout, List.range_succ]
    · have hbusy : busy (gs ++ [.failed errno]) = busy gs := by simp [busy_concat, herrno]
      refine ⟨?_, ?_, ?_, ?_, ?_, ?_⟩
      · simp [Filling.turn, herrno, hlen, PipeRead.bytes]
      · simp [Filling.turn, herrno, hcount, hbusy]
      · simp [Filling.turn, herrno, hmem, PipeRead.bytes]
      · simp [Filling.turn, herrno, htimeout, hbusy]
      · simp [Filling.turn, herrno, hinc, hbusy]
      · simp [Filling.turn, herrno, hslept, hbusy]

theorem filled (gs : List PipeRead) : Filled gs (gs.foldl Filling.turn .start) := by
  induction gs using List.reverseRecOn with
  | nil => exact ⟨rfl, rfl, rfl, rfl, rfl, rfl⟩
  | append_singleton gs g ih =>
    rw [List.foldl_append, List.foldl_cons, List.foldl_nil]
    exact ih.turn g

theorem Filling.ret_turn {s : Filling} {g : PipeRead} :
    (s.turn g).ret ≥ 0 ↔ ∀ e ≠ EAGAIN, g ≠ .failed e := by
  cases g with
  | data bs => simp [Filling.turn]
  | failed errno =>
    by_cases herrno : errno = EAGAIN
    · simp only [Filling.turn, herrno, if_true]
      simp [eq_comm]
    · simp only [Filling.turn, herrno, if_false]
      simpa using herrno

theorem Finished.append (h : Finished size gs) (gs' : List PipeRead) :
    Finished size (gs ++ gs') := by
  rcases h with hlen | ⟨e, he, hmem⟩ | hbusy
  · exact .inl (by rw [bytesOf_append, List.length_append]; omega)
  · exact .inr (.inl ⟨e, he, List.mem_append_left _ hmem⟩)
  · exact .inr (.inr (by rw [busy, List.count_append]; exact Nat.le_add_right_of_le hbusy))

/-- One more answer: the loop asks for more unless it is finished with it. -/
theorem filling_more (h : ¬Finished size gs) (g : PipeRead) :
    ((gs ++ [g]).foldl Filling.turn .start).more size = true ↔ ¬Finished size (gs ++ [g]) := by
  have hfilled := filled (gs ++ [g])
  have hret : ((gs ++ [g]).foldl Filling.turn .start).ret ≥ 0 ↔ ∀ e ≠ EAGAIN, g ≠ .failed e := by
    rw [List.foldl_append, List.foldl_cons, List.foldl_nil, Filling.ret_turn]
  have hbefore : ∀ e ≠ EAGAIN, .failed e ∉ gs := fun e he hmem => h (.inr (.inl ⟨e, he, hmem⟩))
  have hbusy : busy (gs ++ [g]) ≤ 5 := by
    have hlt : ¬5 ≤ busy gs := fun hle => h (.inr (.inr hle))
    rw [busy_concat]
    split <;> omega
  have hfailed : (∃ e ≠ EAGAIN, .failed e ∈ gs ++ [g]) ↔ ¬∀ e ≠ EAGAIN, g ≠ .failed e := by
    rw [not_forall]
    refine exists_congr fun e => ?_
    rw [Classical.not_imp, not_not]
    refine and_congr_right fun he => ?_
    rw [List.mem_append, List.mem_singleton, or_iff_right (hbefore e he), eq_comm]
  have hcount : (5 : ℤ) - busy (gs ++ [g]) ≠ 0 ↔ ¬5 ≤ busy (gs ++ [g]) := by omega
  rw [Filling.more, decide_eq_true_eq, hret, hfilled.len, hfilled.count, Finished, hfailed, hcount,
    not_or, not_or, not_not, not_le, not_le]
  exact and_left_comm

theorem not_finished_nil (hsize : 0 < size) : ¬Finished size [] := by
  simp [Finished, busy]
  omega

theorem Finished.mono {j : ℕ} (h : Finished size (answers rs j)) (hjk : j ≤ k) :
    Finished size (answers rs k) := by
  obtain ⟨d, rfl⟩ := Nat.exists_eq_add_of_le hjk
  rw [answers_add]
  exact h.append _

/-- The loop goes on until it is finished with the answers. -/
theorem filling_goes (hsize : 0 < size) :
    Goes Filling.turn (Filling.more size) rs .start k ↔ ¬Finished size (answers rs k) := by
  induction k with
  | zero => simpa using not_finished_nil hsize
  | succ k ih =>
    rw [goes_succ, ih, answers_succ]
    constructor
    · rintro ⟨hbefore, hmore⟩
      exact (filling_more hbefore _).1 hmore
    · intro h
      have hbefore : ¬Finished size (answers rs k) := fun hf => h (hf.append _)
      exact ⟨hbefore, (filling_more hbefore _).2 h⟩

/-- The reads of a field end with the `k`-th. -/
def EndsAt (size : ℕ) (rs : ℕ → PipeRead) (k : ℕ) : Prop :=
  Finished size (answers rs k) ∧ ∀ j < k, ¬Finished size (answers rs j)

/-- **The reads of one field.** -/
theorem exists_read (hsize : 0 < size) {b : Bool} {s : Filling} :
    (∃ n, readPllStatusBuffer size rs n = some (b, s, k)) ↔
      EndsAt size rs k ∧ s = (answers rs k).foldl Filling.turn .start ∧
        b = decide ((bytesOf (answers rs k)).length = size) := by
  have hmore : ∀ j, ¬Finished size (answers rs j) →
      (((answers rs (j + 1)).foldl Filling.turn .start).more size = false ↔
        Finished size (answers rs (j + 1))) := by
    intro j hj
    rw [← Bool.not_eq_true, answers_succ, filling_more hj, not_not]
  constructor
  · rintro ⟨n, h⟩
    obtain ⟨⟨s', k'⟩, hfeed, heq⟩ := Option.bind_eq_some_iff.1 h
    cases Option.some.inj heq
    obtain ⟨j, rfl, rfl, hgoes, hstop⟩ := exists_feed.1 ⟨n, hfeed⟩
    have hbefore := (filling_goes hsize).1 hgoes
    refine ⟨⟨(hmore j hbefore).1 hstop, fun i hi hf => ?_⟩, rfl, ?_⟩
    · exact hbefore (hf.mono (by omega))
    · rw [(filled _).len]
  · rintro ⟨⟨hfinished, hbefore⟩, rfl, rfl⟩
    rcases k with _ | k
    · exact absurd hfinished (not_finished_nil hsize)
    · have hk := hbefore k k.lt_succ_self
      obtain ⟨n, hfeed⟩ := exists_feed.2
        ⟨k, rfl, rfl, (filling_goes hsize).2 hk, (hmore k hk).2 hfinished⟩
      refine ⟨n, Option.bind_eq_some_iff.2 ⟨_, hfeed, ?_⟩⟩
      dsimp only
      rw [(filled _).len]
      rfl

/-! ## Reading the three fields -/

theorem readPllStatusBuffer_mono {m : ℕ} {x : Bool × Filling × ℕ}
    (h : readPllStatusBuffer size rs n = some x) (hnm : n ≤ m) :
    readPllStatusBuffer size rs m = some x := by
  obtain ⟨⟨s, k⟩, hfeed, heq⟩ := Option.bind_eq_some_iff.1 h
  refine Option.bind_eq_some_iff.2 ⟨(s, k), ?_, heq⟩
  obtain ⟨j, hj, hfeed⟩ := feed_eq_some.1 hfeed
  exact feed_eq_some.2 ⟨j, by omega, hfeed⟩

/-- The fields of the given sizes, read one after the other until one does not come. -/
def readFields : List ℕ → (ℕ → PipeRead) → ℕ → Option (Bool × List (Filling × ℕ))
  | [], _, _ => some (true, [])
  | size :: sizes, rs, n => do
    let (status, s, k) ← readPllStatusBuffer size rs n
    if status then do
      let (status, calls) ← readFields sizes (later rs k) n
      pure (status, (s, k) :: calls)
    else pure (false, [(s, k)])

/-- The sizes of the fields of a status message. -/
def pllFields : List ℕ := [stseqnBytes, mtBytes, stBytes]

theorem ebppPllGetstatus_eq (rs : ℕ → PipeRead) (n : ℕ) :
    ebppPllGetstatus rs n = (readFields pllFields rs n).map fun x =>
      (if x.1 then cspiOk else cspiESystem, x.2) := by
  simp only [ebppPllGetstatus, pllFields, readFields]
  cases readPllStatusBuffer stseqnBytes rs n with
  | none => rfl
  | some x =>
    obtain ⟨status, seq, i⟩ := x
    cases status with
    | false => rfl
    | true =>
      simp only [Option.bind_eq_bind, Option.bind_some, if_true]
      cases readPllStatusBuffer mtBytes (later rs i) n with
      | none => rfl
      | some x =>
        obtain ⟨status, mt, j⟩ := x
        cases status with
        | false => rfl
        | true =>
          simp only [Option.bind_some, if_true]
          cases readPllStatusBuffer stBytes (later (later rs i) j) n with
          | none => rfl
          | some x =>
            obtain ⟨status, st, k⟩ := x
            cases status <;> rfl

/-- No call has more than five reads without data. -/
def Patient : (ℕ → PipeRead) → List (Filling × ℕ) → Prop
  | _, [] => True
  | rs, (_, k) :: calls => blanks (answers rs k) ≤ 5 ∧ Patient (later rs k) calls

/-- `ebpp_pll_getstatus` ends, and none of its calls has more than five reads without data. -/
def Gets (rs : ℕ → PipeRead) : Prop :=
  ∃ n rc calls, ebppPllGetstatus rs n = some (rc, calls) ∧ Patient rs calls

/-- For each field that the code comes to: at most five answers without data come until its bytes
are there, or an error other than `EAGAIN`, or the fifth `EAGAIN`. -/
def Responsive : List ℕ → (ℕ → PipeRead) → Prop
  | [], _ => True
  | size :: sizes, rs => ∃ k, EndsAt size rs k ∧ blanks (answers rs k) ≤ 5 ∧
    ((bytesOf (answers rs k)).length = size → Responsive sizes (later rs k))

theorem readFields_mono {sizes : List ℕ} {m : ℕ} {x : Bool × List (Filling × ℕ)}
    (h : readFields sizes rs n = some x) (hnm : n ≤ m) : readFields sizes rs m = some x := by
  induction sizes generalizing rs x with
  | nil => exact h
  | cons size sizes ih =>
    obtain ⟨⟨status, s, k⟩, hread, heq⟩ := Option.bind_eq_some_iff.1 h
    refine Option.bind_eq_some_iff.2 ⟨_, readPllStatusBuffer_mono hread hnm, ?_⟩
    cases status with
    | false => exact heq
    | true =>
      obtain ⟨y, hrest, heq⟩ := Option.bind_eq_some_iff.1 heq
      exact Option.bind_eq_some_iff.2 ⟨y, ih hrest, heq⟩

theorem responsive_iff {sizes : List ℕ} (hsizes : ∀ size ∈ sizes, 0 < size) :
    (∃ n b calls, readFields sizes rs n = some (b, calls) ∧ Patient rs calls) ↔
      Responsive sizes rs := by
  induction sizes generalizing rs with
  | nil => exact ⟨fun _ => trivial, fun _ => ⟨0, true, [], rfl, trivial⟩⟩
  | cons size sizes ih =>
    obtain ⟨hsize, hrest⟩ := List.forall_mem_cons.1 hsizes
    constructor
    · rintro ⟨n, b, calls, h, hpatient⟩
      obtain ⟨⟨status, s, k⟩, hread, heq⟩ := Option.bind_eq_some_iff.1 h
      obtain ⟨hends, rfl, rfl⟩ := (exists_read hsize).1 ⟨n, hread⟩
      by_cases hlen : (bytesOf (answers rs k)).length = size
      · simp only [hlen, decide_true, if_true] at heq
        obtain ⟨⟨b', calls'⟩, hfields, heq⟩ := Option.bind_eq_some_iff.1 heq
        cases Option.some.inj heq
        exact ⟨k, hends, hpatient.1, fun _ => (ih hrest).1 ⟨n, b', calls', hfields, hpatient.2⟩⟩
      · simp only [hlen, decide_false, Bool.false_eq_true, if_false] at heq
        cases Option.some.inj heq
        exact ⟨k, hends, hpatient.1, fun h => absurd h hlen⟩
    · rintro ⟨k, hends, hblanks, hlater⟩
      obtain ⟨n, hread⟩ := (exists_read hsize).2 ⟨hends, rfl, rfl⟩
      generalize (answers rs k).foldl Filling.turn .start = s at hread
      by_cases hlen : (bytesOf (answers rs k)).length = size
      · obtain ⟨m, b, calls, hfields, hpatient⟩ := (ih hrest).2 (hlater hlen)
        refine ⟨max n m, b, (s, k) :: calls, Option.bind_eq_some_iff.2
          ⟨_, readPllStatusBuffer_mono hread (le_max_left _ _), ?_⟩, hblanks, hpatient⟩
        simp only [hlen, decide_true, if_true]
        exact Option.bind_eq_some_iff.2 ⟨_, readFields_mono hfields (le_max_right _ _), rfl⟩
      · refine ⟨n, false, [(s, k)], Option.bind_eq_some_iff.2 ⟨_, hread, ?_⟩, hblanks, trivial⟩
        simp only [hlen, decide_false, Bool.false_eq_true, if_false]
        rfl

theorem gets_iff : Gets rs ↔ Responsive pllFields rs := by
  rw [← responsive_iff (by decide), Gets]
  simp only [ebppPllGetstatus_eq, Option.map_eq_some_iff]
  constructor
  · rintro ⟨n, rc, calls, ⟨⟨b, calls'⟩, h, heq⟩, hpatient⟩
    cases heq
    exact ⟨n, b, calls', h, hpatient⟩
  · rintro ⟨n, b, calls, h, hpatient⟩
    exact ⟨n, _, calls, ⟨_, h, rfl⟩, hpatient⟩

/-- The reads of a field end soon if none of them comes to the end of the file. -/
theorem exists_endsAt (size : ℕ) (h : ∀ i, rs i ≠ .data []) :
    ∃ k, EndsAt size rs k ∧ blanks (answers rs k) ≤ 5 := by
  have hcount : ∀ k, ¬Finished size (answers rs k) →
      k ≤ (bytesOf (answers rs k)).length + busy (answers rs k) ∧
        blanks (answers rs k) = busy (answers rs k) := by
    intro k hk
    induction k with
    | zero => simp [blanks, busy]
    | succ k ih =>
      obtain ⟨hle, hblanks⟩ := ih fun hf => hk (hf.mono k.le_succ)
      rw [answers_succ] at hk ⊢
      rw [busy_concat, blanks_concat, bytesOf_append, bytesOf_singleton, List.length_append]
      cases hr : rs k with
      | data bs =>
        have hbs : bs ≠ [] := fun hnil => h k (by rw [hr, hnil])
        have hpos := List.length_pos_iff.2 hbs
        simp only [PipeRead.bytes, hbs, if_false, reduceCtorEq]
        omega
      | failed e =>
        obtain rfl : e = EAGAIN := by
          by_contra he
          exact hk (.inr (.inl ⟨e, he, by simp [hr]⟩))
        simp only [PipeRead.bytes, if_true, List.length_nil]
        omega
  have hexists : ∃ k, Finished size (answers rs k) := by
    by_contra hnone
    have hlast := not_exists.1 hnone (size + 5)
    have hle := (hcount _ hlast).1
    simp only [Finished, not_or, not_le] at hlast
    omega
  classical
  refine ⟨Nat.find hexists, ⟨Nat.find_spec hexists, fun j hj => Nat.find_min hexists hj⟩, ?_⟩
  cases hk : Nat.find hexists with
  | zero => simp [blanks]
  | succ j =>
    have hj : ¬Finished size (answers rs j) := Nat.find_min hexists (by omega)
    have hbusy : ¬5 ≤ busy (answers rs j) := fun hle => hj (.inr (.inr hle))
    have hblanks := (hcount j hj).2
    rw [answers_succ, blanks_concat]
    split <;> omega

/-- While somebody has the pipe open for writing, reading the status ends. -/
theorem responsive_of_open (sizes : List ℕ) (h : ∀ i, rs i ≠ .data []) : Responsive sizes rs := by
  induction sizes generalizing rs with
  | nil => trivial
  | cons size sizes ih =>
    obtain ⟨k, hends, hblanks⟩ := exists_endsAt size h
    exact ⟨k, hends, hblanks, fun _ => ih fun i => h (k + i)⟩

/-- **Emptying the pipe and reading the status.** Emptying the pipe ends after the first read that
finds it empty or without a writer if and only if the reads give data until one says `EAGAIN`; if
`errno` said so before, the very first one has to find it empty or without a writer. Reading the
status ends, with at most five reads without data in each call, if and only if no more than these
come before a field is there, an error other than `EAGAIN`, or the fifth `EAGAIN`. -/
theorem pllStatus_ends_iff (errno : ℤ) (rs rs' : ℕ → PipeRead) :
    (Clears errno rs ↔ (errno = EAGAIN ∧ (rs 0).Drained) ∨
      (errno ≠ EAGAIN ∧ ∃ k, rs k = .failed EAGAIN ∧ ∀ j < k, ∃ b bs, rs j = .data (b :: bs))) ∧
    (Gets rs' ↔ Responsive pllFields rs') :=
  ⟨clears_iff, gets_iff⟩

/-- Without a writer emptying the pipe never ends. -/
theorem clearstatus_at_end_of_file : ¬∀ errno rs rs', Clears errno rs ∧ Gets rs' := by
  intro h
  have hclears := (h 0 (fun _ => .data []) fun _ => .data []).1
  rcases clears_iff.1 hclears with ⟨herrno, -⟩ | ⟨-, k, hk, -⟩
  · exact absurd herrno (by decide)
  · cases hk

/-! ## The buffer -/

/-- `read_pll_status_buffer` never stores a byte behind its buffer. -/
def KeepsBuffer (size : ℕ) (rs : ℕ → PipeRead) : Prop :=
  ∀ k, Goes Filling.turn (Filling.more size) rs .start k →
    ∀ a, (((answers rs (k + 1)).foldl Filling.turn .start).mem a).isSome → a < size

/-- No read gives more than is missing of the field. -/
theorem keepsBuffer_iff (hsize : 0 < size) :
    KeepsBuffer size rs ↔ ∀ k, ¬Finished size (answers rs k) →
      (bytesOf (answers rs k)).length + (rs k).bytes.length ≤ size := by
  refine forall_congr' fun k => ?_
  rw [filling_goes hsize]
  refine imp_congr_right fun _ => ?_
  have hbytes : (bytesOf (answers rs (k + 1))).length =
      (bytesOf (answers rs k)).length + (rs k).bytes.length := by
    rw [answers_succ, bytesOf_append, bytesOf_singleton, List.length_append]
  simp only [(filled _).mem, isSome_getElem?, hbytes]
  constructor
  · intro h
    by_contra hlong
    exact absurd (h size (by omega)) (Nat.lt_irrefl _)
  · intro h a ha
    omega

/-- A field that was read is what the reads of its call gave. -/
structure Holds (size : ℕ) (rs : ℕ → PipeRead) (s : Filling) (k : ℕ) : Prop where
  length : (bytesOf (answers rs k)).length = size
  mem : s.mem = fun a => (bytesOf (answers rs k))[a]?

theorem holds_of_read {s : Filling} (h : readPllStatusBuffer size rs n = some (true, s, k)) :
    Holds size rs s k := by
  obtain ⟨⟨s', k'⟩, hfeed, heq⟩ := Option.bind_eq_some_iff.1 h
  obtain ⟨hlen, heq⟩ := Prod.mk.inj (Option.some.inj heq)
  obtain ⟨rfl, rfl⟩ := Prod.mk.inj heq
  obtain ⟨j, -, rfl, rfl, -, -⟩ := feed_eq_some.1 hfeed
  have hfilled := filled (answers rs (j + 1))
  exact ⟨by rw [← hfilled.len]; exact of_decide_eq_true hlen, hfilled.mem⟩

/-- The three fields that were read are the next bytes of the pipe. -/
theorem holds_of_getstatus {calls : List (Filling × ℕ)}
    (h : ebppPllGetstatus rs n = some (cspiOk, calls)) :
    ∃ seq mt st i j k, calls = [(seq, i), (mt, j), (st, k)] ∧ Holds stseqnBytes rs seq i ∧
      Holds mtBytes (later rs i) mt j ∧ Holds stBytes (later (later rs i) j) st k ∧
      bytesOf (answers rs (i + j + k)) = bytesOf (answers rs i) ++
        bytesOf (answers (later rs i) j) ++ bytesOf (answers (later (later rs i) j) k) := by
  obtain ⟨⟨status, seq, i⟩, hseq, h⟩ := Option.bind_eq_some_iff.1 h
  cases status with
  | false => cases Option.some.inj h
  | true =>
    obtain ⟨⟨status, mt, j⟩, hmt, h⟩ := Option.bind_eq_some_iff.1 h
    cases status with
    | false => cases Option.some.inj h
    | true =>
      obtain ⟨⟨status, st, k⟩, hst, h⟩ := Option.bind_eq_some_iff.1 h
      cases status with
      | false => cases Option.some.inj h
      | true =>
        cases Option.some.inj h
        refine ⟨seq, mt, st, i, j, k, rfl, holds_of_read hseq, holds_of_read hmt,
          holds_of_read hst, ?_⟩
        have hlater : later rs (i + j) = later (later rs i) j := by
          funext a
          exact congrArg rs (Nat.add_assoc i j a)
        rw [answers_add, answers_add, hlater, bytesOf_append, bytesOf_append]

/-- **The buffer of the PLL status.** A call keeps to its buffer if and only if no read gives more
than is missing of the field. When it returns `1` it took exactly the bytes of the field, and when
`ebpp_pll_getstatus` succeeds the three fields are the next bytes of the pipe, one behind the
other. -/
theorem pllBuffer_kept_iff (rs : ℕ → PipeRead) :
    (∀ size, 0 < size → (KeepsBuffer size rs ↔ ∀ k, ¬Finished size (answers rs k) →
      (bytesOf (answers rs k)).length + (rs k).bytes.length ≤ size)) ∧
    (∀ size n s k, readPllStatusBuffer size rs n = some (true, s, k) → Holds size rs s k) ∧
    ∀ n calls, ebppPllGetstatus rs n = some (cspiOk, calls) →
      ∃ seq mt st i j k, calls = [(seq, i), (mt, j), (st, k)] ∧ Holds stseqnBytes rs seq i ∧
        Holds mtBytes (later rs i) mt j ∧ Holds stBytes (later (later rs i) j) st k ∧
        bytesOf (answers rs (i + j + k)) = bytesOf (answers rs i) ++
          bytesOf (answers (later rs i) j) ++ bytesOf (answers (later (later rs i) j) k) :=
  ⟨fun _ hsize => keepsBuffer_iff hsize, fun _ _ _ _ h => holds_of_read h,
    fun _ _ h => holds_of_getstatus h⟩

/-- The sequence number comes in two parts, and with the second part the bytes behind it. -/
def splitMessage : ℕ → PipeRead
  | 0 => .data [1, 0]
  | 1 => .data [0, 0, 2, 0]
  | _ => .failed EAGAIN

/-- The second read stores two bytes behind the buffer. -/
theorem split_message_overruns :
    ¬∀ size rs, 0 < size → (∀ i, (rs i).bytes.length ≤ size) → KeepsBuffer size rs := by
  intro h
  have hread : ∀ i, (splitMessage i).bytes.length ≤ stseqnBytes
    | 0 => by decide
    | 1 => by decide
    | _ + 2 => by simp [splitMessage, PipeRead.bytes]
  have hkept := (keepsBuffer_iff (by decide)).1 (h stseqnBytes splitMessage (by decide) hread) 1
    (by simp [Finished, answers, splitMessage, busy, PipeRead.bytes, bytesOf, stseqnBytes])
  exact absurd hkept (by decide)

end LiberaDaq.Cspi
