import LiberaDaq.Kernel.TrigDispatch
import LiberaDaq.Kernel.TrigEnable
import Mathlib.Algebra.Order.BigOperators.Group.List

/-!
# The FIFOs that are flushed when triggers are enabled

A request for triggers flushes the FIFOs of their time stamps. The loop starts again at the mask of
the first trigger for every bit, and its index runs on, so that the FIFOs are those of the running
sums of the bits. Of the bits outside the vector the request is checked for the last one alone,
since the macro of the vector has no parentheses.

A request does exactly what it asks for if it is refused, or has no other bit and asks for one
trigger, or for the first and another one; no other request does (`enable_exact_iff`).
-/

namespace LiberaDaq.Kernel

open LiberaDaq.Cspi LiberaDaq.Interaction LiberaDaq.Memory

/-! ## Running sums -/

/-- The sums of the first numbers of a list, on top of one that is given. -/
def runningSums : ℕ → List ℕ → List ℕ
  | _, [] => []
  | i, b :: bs => (i + b) :: runningSums (i + b) bs

theorem sum_mem_runningSums {i : ℕ} {bs : List ℕ} (h : bs ≠ []) :
    i + bs.sum ∈ runningSums i bs := by
  induction bs generalizing i with
  | nil => exact absurd rfl h
  | cons b bs ih =>
    rw [runningSums, List.sum_cons, ← Nat.add_assoc]
    cases bs with
    | nil => exact List.mem_cons_self
    | cons b' bs => exact List.mem_cons_of_mem _ (ih (List.cons_ne_nil _ _))

/-- The running sums of ascending numbers are these numbers only where they are one, or one after
`0`. -/
theorem runningSums_mem_iff {bs : List ℕ} (hbs : bs.Pairwise (· < ·)) (hne : bs ≠ []) :
    (∀ n, n ∈ runningSums 0 bs ↔ n ∈ bs) ↔ ∃ b, bs = [b] ∨ bs = [0, b] := by
  constructor
  · intro h
    obtain ⟨before, last, rfl⟩ : ∃ before last, bs = before ++ [last] :=
      ⟨bs.dropLast, bs.getLast hne, (List.dropLast_append_getLast hne).symm⟩
    obtain ⟨hbefore, -, hlast⟩ := List.pairwise_append.1 hbs
    have hsum : before.sum + last ∈ before ++ [last] := by
      have hmem := (h _).1 (sum_mem_runningSums hne)
      simpa using hmem
    have hle : before.sum + last ≤ last := by
      rcases List.mem_append.1 hsum with hmem | hmem
      · exact (hlast _ hmem last List.mem_cons_self).le
      · exact (List.mem_singleton.1 hmem).le
    have hzero : ∀ b ∈ before, b = 0 := by
      intro b hb
      have hb := List.le_sum_of_mem hb
      omega
    rcases before with _ | ⟨b, _ | ⟨b', rest⟩⟩
    · exact ⟨last, .inl rfl⟩
    · exact ⟨last, .inr (by rw [hzero b List.mem_cons_self]; rfl)⟩
    · have hlt := List.rel_of_pairwise_cons hbefore List.mem_cons_self
      have hb' := hzero b' (List.mem_cons_of_mem _ List.mem_cons_self)
      omega
  · rintro ⟨b, rfl | rfl⟩
    · simp [runningSums]
    · simp [runningSums]

/-! ## The loop -/

/-- The loop of the requests, with the indices of the FIFOs that it flushes. `TRIG_VECTOR` is
`TRIG_ALL_MASK`. -/
def flushLoop : ℕ → Word → ℕ → Option (List ℕ)
  | 0, _, _ => none
  | fuel + 1, arg, i =>
    if arg &&& trigVector ≠ 0 then
      (seek 32 arg trigZero i).bind fun r =>
        (flushLoop fuel (arg &&& ~~~r.1) r.2).map (r.2 :: ·)
    else some []

variable {arg : Word} {i : ℕ} {c : TrigClock}

theorem trigBits_eq : trigBits arg = bitsFrom 22 9 arg 0 := by
  rw [trigBits, bitsFrom, List.range_eq_range']
  exact List.filter_congr fun b _ => by rw [Nat.add_comm]

theorem pairwise_trigBits : (trigBits arg).Pairwise (· < ·) :=
  List.Pairwise.filter _ List.pairwise_lt_range

/-- The index of a search does not matter for its mask. -/
theorem seek_add {w fuel j : ℕ} {x m : BitVec w} :
    seek fuel x m (j + i) = (seek fuel x m j).map fun r => (r.1, r.2 + i) := by
  induction fuel generalizing m j with
  | zero => rfl
  | succ fuel ih =>
    rw [seek, seek]
    split
    · rfl
    · rw [Nat.add_right_comm, ih]

/-- The triggers without the first one. -/
theorem trigBits_tail {b : ℕ} {bits : List ℕ} (h : trigBits arg = b :: bits) :
    trigBits (arg &&& ~~~bitMask 32 (22 + b)) = bits := by
  have hb : b < 9 := by
    have hmem : b ∈ trigBits arg := h ▸ List.mem_cons_self
    exact List.mem_range.1 (List.mem_filter.1 hmem).1
  have hfilter : trigBits (arg &&& ~~~bitMask 32 (22 + b)) =
      (trigBits arg).filter fun k => k ≠ b := by
    rw [trigBits, trigBits, List.filter_filter]
    refine List.filter_congr fun k hk => ?_
    have hk := List.mem_range.1 hk
    rw [Nat.add_comm k, getLsbD_and_not_bitMask (by omega) (by omega), Bool.and_comm]
  have hpairwise : (trigBits arg).Pairwise (· < ·) := pairwise_trigBits
  rw [h] at hpairwise
  rw [hfilter, h, List.filter_cons_of_neg (by simp), List.filter_eq_self]
  intro k hk
  have hlt := List.rel_of_pairwise_cons hpairwise hk
  simp
  omega

/-- **The loop ends**, and flushes the FIFOs of the running sums. The induction is on the triggers
that are left. -/
theorem flushLoop_eq {fuel : ℕ} (h : (trigBits arg).length < fuel) :
    flushLoop fuel arg i = some (runningSums i (trigBits arg)) := by
  have hvector : ∀ j < 32, trigVector.getLsbD j = decide (22 ≤ j ∧ j < 22 + 9) :=
    fun _ hj => getLsbD_trigVector hj
  generalize hbits : trigBits arg = bits at h
  induction bits generalizing arg i fuel with
  | nil =>
    obtain ⟨fuel, rfl⟩ : ∃ k, fuel = k + 1 := ⟨fuel - 1, by omega⟩
    have hnone : ¬arg &&& trigVector ≠ 0 := by
      rw [not_not, and_vector_eq_zero (by decide) hvector]
      rw [trigBits_eq, bitsFrom_eq_nil_iff] at hbits
      exact fun k hk => hbits k (Nat.zero_le k) hk
    rw [flushLoop, if_neg hnone]
    rfl
  | cons b bits ih =>
    obtain ⟨fuel, rfl⟩ : ∃ k, fuel = k + 1 := ⟨fuel - 1, by omega⟩
    have hfirst := bitsFrom_cons (by decide) (trigBits_eq.symm.trans hbits)
    obtain ⟨-, hb, hset, hclear, -⟩ := hfirst
    have hsome : arg &&& trigVector ≠ 0 := by
      rw [Ne, and_vector_eq_zero (by decide) hvector]
      intro hall
      rw [hall b hb] at hset
      cases hset
    have hseek : seek 32 arg trigZero i = some (bitMask 32 (22 + b), i + b) := by
      have hzero : seek 32 arg trigZero 0 = some (bitMask 32 (22 + b), 0 + b) :=
        seek_eq (i := 0) (by omega) hset (fun e he => hclear e (Nat.zero_le e) he) (by omega)
      have hshift : seek 32 arg trigZero (0 + i) = _ := seek_add
      rw [Nat.zero_add, hzero, Option.map_some, Nat.zero_add, Nat.add_comm b i] at hshift
      exact hshift
    have hlength : bits.length < fuel := by
      rw [List.length_cons] at h
      omega
    rw [flushLoop, if_pos hsome, hseek, Option.bind_some, ih (trigBits_tail hbits) hlength]
    rfl

/-- The FIFOs are flushed one after the other. -/
theorem flushTriggers_eq (c : TrigClock) (i : ℕ) (bits : List ℕ) (d : EventDev) :
    EventDev.flushTriggers c i bits d =
      (runningSums i bits).foldl (fun d n => d.flushNth (EventDev.firstStamps c + n)) d := by
  induction bits generalizing i d with
  | nil => rfl
  | cons b bits ih => exact ih (i + b) _

/-! ## The vectors of the open files -/

namespace EventSite

variable {s : EventSite} {file f : Filp} {m : EventMove} {ms : List EventMove}

/-- The triggers of the open files are enabled, each for one file, and the last bit is not one of
them. -/
structure Owned (s : EventSite) : Prop where
  stored : s.Stored
  below : ∀ f c i, s.files f ≠ none → (s.own f c).getLsbD i = true →
    (s.dev.trigVec c).getLsbD i = true
  apart : ∀ f f' c i, s.files f ≠ none → s.files f' ≠ none → (s.own f c).getLsbD i = true →
    (s.own f' c).getLsbD i = true → f = f'
  valid : ∀ f c i, s.files f ≠ none → (s.own f c).getLsbD i = true →
    trigNoneMask.getLsbD i = false

theorem owned_loaded (mask : TrigClock → Word) : (loaded mask).Owned where
  stored := ⟨fun _ hf => absurd rfl hf, fun _ _ hf => absurd rfl hf⟩
  below _ _ _ hf := absurd rfl hf
  apart _ _ _ _ hf := absurd rfl hf
  valid _ _ _ hf := absurd rfl hf

/-- A move that opens no file but ones without triggers, keeps the triggers of the others, and
drops none of these. -/
theorem Owned.of_kept {s' : EventSite} (h : s.Owned) (hstored : s'.Stored)
    (hown : ∀ f c i, s'.files f ≠ none → (s'.own f c).getLsbD i = true →
      s.files f ≠ none ∧ (s.own f c).getLsbD i = true ∧ ((s.dev.trigVec c).getLsbD i = true →
        (s'.dev.trigVec c).getLsbD i = true)) : s'.Owned where
  stored := hstored
  below f c i hf hbit := by
    obtain ⟨hf, hbit, hvec⟩ := hown f c i hf hbit
    exact hvec (h.below f c i hf hbit)
  apart f f' c i hf hf' hbit hbit' := by
    obtain ⟨hf, hbit, -⟩ := hown f c i hf hbit
    obtain ⟨hf', hbit', -⟩ := hown f' c i hf' hbit'
    exact h.apart f f' c i hf hf' hbit hbit'
  valid f c i hf hbit := by
    obtain ⟨hf, hbit, -⟩ := hown f c i hf hbit
    exact h.valid f c i hf hbit

theorem Owned.openFile {dev : Bool} {mode : FMode} {mem : Option ℕ} (h : s.Owned)
    (hp : s.Possible (.openFile dev file mode mem)) :
    (s.step (.openFile dev file mode mem)).Owned := by
  refine h.of_kept (stored_openFile h.stored hp) fun f c i hf hbit => ?_
  have hvec : (s.step (.openFile dev file mode mem)).dev.trigVec = s.dev.trigVec :=
    (s.openFile_memory dev file mode mem).1
  have hopen : s.files f ≠ none := by
    by_contra hnone
    have hret : (s.openFile dev file mode mem).1 = 0 := by
      by_contra hret
      exact hf ((congrFun (if_neg hret) f).trans hnone)
    have hfiles : (s.step (.openFile dev file mode mem)).files =
        Function.update s.files file (some mode) := if_pos hret
    have hfile : f = file := by
      by_contra hne
      rw [hfiles, Function.update_of_ne hne] at hf
      exact hf hnone
    -- the file is new, and has no triggers
    subst hfile
    obtain ⟨p, -, hversion, hheap⟩ := openFile_block hret
    have hblock : (s.step (.openFile dev f mode mem)).heap
        ((s.step (.openFile dev f mode mem)).version f) = some ⟨fun _ => 0⟩ :=
      (congrArg _ hversion).trans hheap
    simp [own, hblock] at hbit
  obtain ⟨-, hv, hh⟩ := openFile_spares h.stored hp hopen
  have hsame : (s.step (.openFile dev file mode mem)).own f c = s.own f c :=
    own_congr ((congrArg _ hv).trans hh)
  rw [hsame] at hbit
  exact ⟨hopen, hbit, fun hvec' => hvec ▸ hvec'⟩

theorem Owned.close (h : s.Owned) (hfile : s.files file ≠ none) : (s.step (.close file)).Owned := by
  obtain ⟨mode, hmode⟩ := Option.ne_none_iff_exists'.1 hfile
  have hstep : s.step (.close file) =
      { s.releaseFile file mode with files := Function.update s.files file none } := by
    simp only [step, answer, hmode]
  rw [hstep]
  refine h.of_kept (stored_close h.stored hfile) fun f c i hf hbit => ?_
  have hopen : f ≠ file ∧ s.files f ≠ none := by
    by_cases hne : f = file
    · subst hne
      exact absurd (Function.update_self ..) hf
    · exact ⟨hne, fun hnone => hf ((Function.update_of_ne hne _ _).trans hnone)⟩
  obtain ⟨hv, hh⟩ := releaseFile_spares mode h.stored hfile hopen.2 hopen.1
  have hsame : own { s.releaseFile file mode with
      files := Function.update s.files file none } f c = s.own f c :=
    own_congr ((congrArg _ hv).trans hh)
  rw [hsame] at hbit
  refine ⟨hopen.2, hbit, fun hvec => ?_⟩
  dsimp only
  rw [releaseFile_trigVec]
  split
  · have hother : (s.own file c).getLsbD i = false :=
      Bool.eq_false_iff.2 fun hmine => hopen.1 (h.apart f file c i hopen.2 hfile hbit hmine)
    rw [BitVec.getLsbD_and, BitVec.getLsbD_not, hvec, hother,
      decide_eq_true (BitVec.lt_of_getLsbD hvec)]
    rfl
  · exact hvec

theorem Owned.valid_enlarge (h : s.Owned) (hfile : s.files file ≠ none) :
    (s.enlarge file c arg).own file c &&& trigNoneMask = 0 ∨ arg &&& trigNoneMask ≠ 0 :=
  EventSite.valid_enlarge h.stored hfile fun i => h.valid file c i hfile

/-- The vector of the device after a request that is granted: no other bit is added. -/
theorem Owned.or_own (h : s.Owned) (hfile : s.files file ≠ none) :
    s.dev.trigVec c ||| (s.enlarge file c arg).own file c = s.dev.trigVec c ||| arg := by
  rw [(enlarge_heap c arg h.stored hfile hfile).2, if_pos rfl, Function.update_self]
  refine BitVec.eq_of_getLsbD_eq fun i _ => ?_
  have hbelow := h.below file c i hfile
  simp only [BitVec.getLsbD_or]
  cases hmine : (s.own file c).getLsbD i with
  | false => rw [Bool.false_or]
  | true => rw [hbelow hmine, Bool.true_or, Bool.true_or]

theorem Owned.enableTrig {ok : Bool} (h : s.Owned) (hfile : s.files file ≠ none) :
    (s.step (.enableTrig c file ok arg)).Owned := by
  change (s.enableTrig c file ok arg).2.Owned
  obtain ⟨ret, -, heq⟩ | ⟨-, hg⟩ := enableTrig_cases ok (h.valid_enlarge (c := c) hfile)
  · rw [heq]
    exact h
  · have hvec := hg.trigVec
    rw [h.or_own hfile] at hvec
    have hfree := TrigBooks.and_eq_zero_iff.1 hg.free
    have hnobody : ∀ f i, s.files f ≠ none → arg.getLsbD i = true →
        ¬(s.own f c).getLsbD i = true := fun f i hf harg hbit =>
      Bool.false_ne_true ((hfree i harg).symm.trans (h.below f c i hf hbit))
    refine ⟨hg.stored h.stored hfile, fun f c' i hf hbit => ?_,
      fun f f' c' i hf hf' hbit hbit' => ?_, fun f c' i hf hbit => ?_⟩
    · rw [hg.files] at hf
      rw [hvec]
      obtain hmine | ⟨-, rfl, harg⟩ := hg.had_or_asked h.stored hfile hf hbit
      · by_cases hc : c' = c
        · subst hc
          rw [Function.update_self, BitVec.getLsbD_or, h.below f c' i hf hmine, Bool.true_or]
        · rw [Function.update_of_ne hc]
          exact h.below f c' i hf hmine
      · rw [Function.update_self, BitVec.getLsbD_or, harg, Bool.or_true]
    · rw [hg.files] at hf hf'
      obtain hmine | ⟨rfl, rfl, harg⟩ := hg.had_or_asked h.stored hfile hf hbit
      · obtain hmine' | ⟨-, rfl, harg⟩ := hg.had_or_asked h.stored hfile hf' hbit'
        · exact h.apart f f' c' i hf hf' hmine hmine'
        · exact absurd hmine (hnobody f i hf harg)
      · obtain hmine' | ⟨rfl, -, -⟩ := hg.had_or_asked h.stored hfile hf' hbit'
        · exact absurd hmine' (hnobody f' i hf' harg)
        · rfl
    · rw [hg.files] at hf
      obtain hmine | ⟨-, -, harg⟩ := hg.had_or_asked h.stored hfile hf hbit
      · exact h.valid f c' i hf hmine
      · exact TrigBooks.and_eq_zero_iff.1 hg.valid i harg

theorem Owned.step (h : s.Owned) (hp : s.Possible m) : (s.step m).Owned := by
  cases m with
  | openFile dev file mode mem => exact h.openFile hp
  | close file => exact h.close hp
  | enableTrig c file ok arg => exact h.enableTrig hp

/-- **In every state** that the device comes to. -/
theorem owned_run {mask : TrigClock → Word} (hp : Along EventSite.step Possible (loaded mask) ms) :
    (ms.foldl EventSite.step (loaded mask)).Owned :=
  hp.keeps (owned_loaded mask) fun _ _ h hp => h.step hp

/-! ## Exact requests -/

/-- A request for triggers of the vector that are not enabled yet. -/
structure Asks (s : EventSite) (c : TrigClock) (arg : Word) : Prop where
  nonzero : arg ≠ 0
  inside : arg &&& ~~~trigVector = 0
  free : arg &&& s.dev.trigVec c = 0

/-- A request is accepted exactly if it is one for free triggers. Then the loop ends and flushes the
FIFOs of the triggers and no other, and the triggers are added to those that are enabled. -/
structure ExactRequest (s : EventSite) (c : TrigClock) (file : Filp) (arg : Word) : Prop where
  accepted : (s.enableTrig c file true arg).1 = 0 ↔ s.Asks c arg
  flushed : (s.enableTrig c file true arg).1 = 0 → ∃ is, flushLoop 10 arg 0 = some is ∧
    (s.enableTrig c file true arg).2.dev.timestamps =
      (is.foldl (fun d n => d.flushNth (EventDev.firstStamps c + n)) s.dev).timestamps ∧
    ∀ i, i ∈ is ↔ i < 9 ∧ arg.getLsbD (22 + i) = true
  added : (s.enableTrig c file true arg).1 = 0 → (s.enableTrig c file true arg).2.dev.trigVec =
    Function.update s.dev.trigVec c (s.dev.trigVec c ||| arg)

/-- What `libera_event_ioctl` refuses: nothing, the last bit, and what is enabled already. -/
def Refuses (s : EventSite) (c : TrigClock) (arg : Word) : Prop :=
  arg = 0 ∨ arg.getLsbD 31 = true ∨ arg &&& s.dev.trigVec c ≠ 0

theorem mem_trigBits : i ∈ trigBits arg ↔ i < 9 ∧ arg.getLsbD (22 + i) = true := by
  rw [trigBits, List.mem_filter, List.mem_range, Nat.add_comm]

theorem and_trigNoneMask : arg &&& trigNoneMask = 0 ↔ arg.getLsbD 31 = false := by
  have hmask : ∀ i < 32, trigNoneMask.getLsbD i = decide (i = 31) := by decide
  rw [TrigBooks.and_eq_zero_iff]
  constructor
  · intro h
    refine Bool.eq_false_iff.2 fun hlast => ?_
    have hnot := h 31 hlast
    rw [hmask 31 (by decide)] at hnot
    cases hnot
  · intro hlast i hbit
    rw [hmask i (BitVec.lt_of_getLsbD hbit), decide_eq_false_iff_not]
    rintro rfl
    exact Bool.false_ne_true (hlast.symm.trans hbit)

/-- No bit outside of the vector, if neither the last one nor one of those before is set. -/
theorem and_not_trigVector (hlast : arg.getLsbD 31 = false) :
    arg &&& ~~~trigVector = 0 ↔ ∀ i < 22, arg.getLsbD i = false := by
  have hmask : ∀ i < 32, (~~~trigVector).getLsbD i = decide (i < 22 ∨ i = 31) := by decide
  rw [TrigBooks.and_eq_zero_iff]
  constructor
  · intro h i hi
    refine Bool.eq_false_iff.2 fun hbit => ?_
    have hnot := h i hbit
    rw [hmask i (by omega), decide_eq_false_iff_not] at hnot
    exact hnot (.inl hi)
  · intro h i hbit
    rw [hmask i (BitVec.lt_of_getLsbD hbit), decide_eq_false_iff_not]
    rintro (hi | rfl)
    · exact Bool.false_ne_true ((h i hi).symm.trans hbit)
    · exact Bool.false_ne_true (hlast.symm.trans hbit)

theorem trigBits_ne_nil (hzero : arg ≠ 0) (hlast : arg.getLsbD 31 = false)
    (hlow : ∀ i < 22, arg.getLsbD i = false) : trigBits arg ≠ [] := by
  intro hnil
  refine hzero (BitVec.eq_of_getLsbD_eq fun i hi => ?_)
  rw [show (0 : Word).getLsbD i = false from BitVec.getLsbD_zero]
  refine Bool.eq_false_iff.2 fun hbit => ?_
  have hrange : 22 ≤ i ∧ i ≠ 31 := by
    refine ⟨?_, ?_⟩
    · by_contra hlt
      exact Bool.false_ne_true ((hlow i (by omega)).symm.trans hbit)
    · rintro rfl
      exact Bool.false_ne_true (hlast.symm.trans hbit)
  have hmem : i - 22 ∈ trigBits arg := by
    rw [mem_trigBits, Nat.add_sub_cancel' hrange.1]
    exact ⟨by omega, hbit⟩
  rw [hnil] at hmem
  cases hmem

theorem refuses_iff : s.Refuses c arg ↔
    (arg = 0 ∨ arg &&& trigNoneMask ≠ 0) ∨ arg &&& s.dev.trigVec c ≠ 0 := by
  have hnone : arg &&& trigNoneMask ≠ 0 ↔ arg.getLsbD 31 = true := by
    rw [Ne, and_trigNoneMask, Bool.not_eq_false]
  rw [Refuses, or_assoc, hnone]

theorem enableTrig_refused (h : s.Refuses c arg) : (s.enableTrig c file true arg).1 ≠ 0 := by
  rw [EventSite.enableTrig, if_neg (by decide)]
  by_cases hinvalid : arg = 0 ∨ arg &&& trigNoneMask ≠ 0
  · rw [if_pos hinvalid]
    exact show -eInval ≠ 0 by decide
  · rw [if_neg hinvalid, if_pos ((refuses_iff.1 h).resolve_left hinvalid)]
    exact show -eBusy ≠ 0 by decide

theorem enableTrig_accepted (h : ¬s.Refuses c arg) : s.enableTrig c file true arg =
    (0, { s.enlarge file c arg with
      dev := ((EventDev.flushTriggers c 0 (trigBits arg) s.dev).trigEnable c
        ((s.enlarge file c arg).own file c)).2 }) := by
  rw [refuses_iff, not_or] at h
  rw [EventSite.enableTrig, if_neg (by decide), if_neg h.1, if_neg h.2]
  rfl

theorem trigEnable_timestamps (d : EventDev) (mask : Word) :
    (d.trigEnable c mask).2.timestamps = d.timestamps := by
  unfold EventDev.trigEnable
  split <;> rfl

/-- A request for free triggers is not refused. -/
theorem Asks.not_refuses (h : s.Asks c arg) : ¬s.Refuses c arg := by
  rintro (hzero | hlast | hbusy)
  · exact h.nonzero hzero
  · exact absurd (TrigBooks.and_eq_zero_iff.1 h.inside 31 hlast) (by decide)
  · exact hbusy h.free

/-- **An exact request**, in a state in which the triggers of the files are theirs. -/
theorem Owned.exactRequest_iff (h : s.Owned) (hfile : s.files file ≠ none) :
    s.ExactRequest c file arg ↔ s.Refuses c arg ∨ ((∀ i < 22, arg.getLsbD i = false) ∧
      ∃ b, trigBits arg = [b] ∨ trigBits arg = [0, b]) := by
  by_cases hrefuses : s.Refuses c arg
  · have hret : (s.enableTrig c file true arg).1 ≠ 0 := enableTrig_refused hrefuses
    exact iff_of_true ⟨iff_of_false hret fun hasks => hasks.not_refuses hrefuses,
      fun h0 => absurd h0 hret, fun h0 => absurd h0 hret⟩ (.inl hrefuses)
  · have hret : (s.enableTrig c file true arg).1 = 0 := by rw [enableTrig_accepted hrefuses]
    obtain ⟨hvalid, hfree⟩ := not_or.1 (refuses_iff.not.1 hrefuses)
    obtain ⟨hzero, hlast⟩ := not_or.1 hvalid
    rw [not_not] at hfree hlast
    rw [and_trigNoneMask] at hlast
    have hasks : s.Asks c arg ↔ ∀ i < 22, arg.getLsbD i = false := by
      rw [← and_not_trigVector hlast]
      exact ⟨fun h => h.inside, fun h => ⟨hzero, h, hfree⟩⟩
    have hloop : flushLoop 10 arg 0 = some (runningSums 0 (trigBits arg)) := by
      refine flushLoop_eq (Nat.lt_succ_of_le ?_)
      exact (List.length_filter_le _ _).trans_eq List.length_range
    have hadded : (s.enableTrig c file true arg).2.dev.trigVec =
        Function.update s.dev.trigVec c (s.dev.trigVec c ||| arg) := by
      obtain ⟨ret, hne, heq⟩ | ⟨-, hg⟩ := enableTrig_cases true (h.valid_enlarge (c := c) hfile)
      · exact absurd hret (by rw [heq]; exact hne)
      · rw [hg.trigVec, h.or_own hfile]
    have hstamps : (s.enableTrig c file true arg).2.dev.timestamps =
        ((runningSums 0 (trigBits arg)).foldl
          (fun d n => d.flushNth (EventDev.firstStamps c + n)) s.dev).timestamps := by
      rw [enableTrig_accepted hrefuses, ← flushTriggers_eq]
      exact trigEnable_timestamps _ _
    rw [or_iff_right hrefuses]
    constructor
    · intro hexact
      have hlow := hasks.1 (hexact.accepted.1 hret)
      obtain ⟨is, his, -, hmem⟩ := hexact.flushed hret
      rw [hloop, Option.some_inj] at his
      subst his
      simp only [← mem_trigBits] at hmem
      exact ⟨hlow, (runningSums_mem_iff pairwise_trigBits
        (trigBits_ne_nil hzero hlast hlow)).1 hmem⟩
    · rintro ⟨hlow, hbits⟩
      refine ⟨iff_of_true hret (hasks.2 hlow), fun _ => ⟨_, hloop, hstamps, fun i => ?_⟩,
        fun _ => hadded⟩
      rw [← mem_trigBits]
      exact (runningSums_mem_iff pairwise_trigBits
        (trigBits_ne_nil hzero hlast hlow)).2 hbits i

/-- **Exact requests.** In every state that the event device comes to, a request does exactly what
it asks for if and only if it is refused, or has no bit below the vector and asks for one trigger or
for the first and another one. -/
theorem enable_exact_iff (mask : TrigClock → Word) (ms : List EventMove)
    (hp : Along EventSite.step Possible (loaded mask) ms) (c : TrigClock) (file : Filp) (arg : Word)
    (hfile : (ms.foldl EventSite.step (loaded mask)).files file ≠ none) :
    (ms.foldl EventSite.step (loaded mask)).ExactRequest c file arg ↔
      (ms.foldl EventSite.step (loaded mask)).Refuses c arg ∨
        ((∀ i < 22, arg.getLsbD i = false) ∧ ∃ b, trigBits arg = [b] ∨ trigBits arg = [0, b]) :=
  (owned_run hp).exactRequest_iff hfile

/-- A reader opens the device. -/
def readerOpened : List EventMove := [.openFile true 1 ⟨true, false⟩ (some 100)]

theorem possible_readerOpened :
    Along EventSite.step Possible (loaded fun _ => 0) readerOpened := ⟨⟨rfl, fun _ _ => rfl⟩, trivial⟩

theorem files_readerOpened : (readerOpened.foldl EventSite.step (loaded fun _ => 0)).files 1 =
    some ⟨true, false⟩ := rfl

/-- A request for the second and the third trigger flushes the FIFO of the fourth instead of the
third. -/
theorem second_and_third : ¬∀ (mask : TrigClock → Word) (ms : List EventMove),
    Along EventSite.step Possible (loaded mask) ms → ∀ (c : TrigClock) (file : Filp) (arg : Word),
      (ms.foldl EventSite.step (loaded mask)).files file ≠ none →
      (ms.foldl EventSite.step (loaded mask)).ExactRequest c file arg := by
  intro h
  have hexact := h (fun _ => 0) readerOpened possible_readerOpened .sc 1 0x1800000
    (by rw [files_readerOpened]; exact Option.some_ne_none _)
  have hasks : (readerOpened.foldl EventSite.step (loaded fun _ => 0)).Asks .sc 0x1800000 :=
    ⟨by decide, by decide, by decide +kernel⟩
  obtain ⟨is, his, -, hmem⟩ := hexact.flushed (hexact.accepted.2 hasks)
  have hloop : flushLoop 10 0x1800000 0 = some [1, 3] := by decide +kernel
  rw [hloop, Option.some_inj] at his
  subst his
  exact absurd ((hmem 2).2 (by decide)) (by decide)

/-- A request for the first and the fourth trigger. -/
theorem enable_exact_first_and_fourth :
    (readerOpened.foldl EventSite.step (loaded fun _ => 0)).ExactRequest .sc 1 0x2400000 ↔
      (readerOpened.foldl EventSite.step (loaded fun _ => 0)).Refuses .sc 0x2400000 ∨
        ((∀ i < 22, (0x2400000 : Word).getLsbD i = false) ∧
          ∃ b, trigBits 0x2400000 = [b] ∨ trigBits 0x2400000 = [0, b]) :=
  enable_exact_iff _ readerOpened possible_readerOpened .sc 1 0x2400000
    (by rw [files_readerOpened]; exact Option.some_ne_none _)

end EventSite

end LiberaDaq.Kernel
