import LiberaDaq.Command.Job
import LiberaDaq.Command.Counting
import LiberaDaq.Interaction.Environment

/-!
# The number of acquisitions

A request asks for a number of loops, negative for no limit. `acquireHandler` looks at what is left
of it after the read and before it counts it down, so that a request for `l` loops makes `l + 1`
reads when every call succeeds (`turns_count`). `loop_count_iff` says for which requests the number
of reads is the number of loops.
-/

namespace LiberaDaq

open Cspi Interaction
open Interaction.Prog hiding pure bind

/-! ## Successful calls -/

/-- The loops that a request asks for, one where it does not say. -/
def Request.count (r : Request) : Word := r.loops.getD 1

/-- The call succeeds. -/
def Succeeds : (c : CmdCall) → CmdAns c → Prop
  | .inl (.iop _), x => x.1 = 0
  | .inl (.read _ _ _), x => 0 ≤ x.ret
  | .inr .getAccessor, x => x = true
  | .inr (.resize _ _), x => x = true
  | .inr (.getRWPtr _), x => x = true
  | .inr .now, _ => True
  | .inr .fault, _ => False

/-- The call is a `read` of the driver. -/
def isRead : CmdCall → Bool
  | .inl (.read _ _ _) => true
  | _ => false

/-- The calls of `read` in a move. -/
def readsOf (m : JobMove) : ℕ := m.events.countP fun e => isRead e.1

/-- The calls of `read` in a history. -/
def reads (ms : List JobMove) : ℕ := (ms.map readsOf).sum

@[simp] theorem reads_cons (m : JobMove) (ms : List JobMove) :
    reads (m :: ms) = readsOf m + reads ms := by
  simp [reads]

/-- Every call of the move succeeds. -/
def AllSucceed (m : JobMove) : Prop := ∀ e ∈ m.events, Succeeds e.1 e.2

/-- The environment in which every call succeeds, with the number of reads that were made. -/
def counting : Serves CmdCall CmdAns ℕ := fun c x n n' =>
  Succeeds c x ∧ n' = n + if isRead c then 1 else 0

theorem served_counting {t : List CmdEvent} (h : ∀ e ∈ t, Succeeds e.1 e.2) (n : ℕ) :
    Served counting t n (n + t.countP fun e => isRead e.1) := by
  induction t generalizing n with
  | nil => exact rfl
  | cons e t ih =>
    obtain ⟨he, ht⟩ := List.forall_mem_cons.1 h
    refine ⟨_, ⟨he, rfl⟩, ?_⟩
    rw [List.countP_cons, Nat.add_comm (List.countP _ t), ← Nat.add_assoc]
    exact ih ht _

/-! ## The start -/

variable {c : AcquireCmd} {r : Request} {w l : Word} {n k : ℕ}

theorem resizeAll_wlp {size : ℕ} {as : List Attr} : (resizeAll size as c).wlp counting
    (fun x n' => n' = n ∧ x = (true, c.resized size as)) n := by
  induction as generalizing c with
  | nil => exact ⟨rfl, rfl⟩
  | cons a as ih =>
    rintro x _ ⟨hx, rfl⟩
    obtain rfl : x = true := hx
    exact ih

theorem sizeAttr_wlp {a : Attr} : (c.sizeAttr a r.tsamples).wlp counting
    (fun x n' => n' = n ∧ x = (true, c.sized r a)) n := by
  unfold AcquireCmd.sizeAttr AcquireCmd.sized
  change (if r.hasSamples = true then _ else _ : CmdProg (Bool × AcquireCmd)).wlp counting _ n
  split
  · refine wlp_seq resizeAll_wlp ?_
    rintro _ _ ⟨rfl, rfl⟩
    rintro x _ ⟨-, rfl⟩
    exact ⟨rfl, rfl⟩
  · exact ⟨rfl, rfl⟩

theorem start_wlp : (c.start r w).wlp counting
    (fun x n' => n' = n ∧ ∃ now, x = (.return, (c.sought r).accepted w now)) n := by
  unfold AcquireCmd.start
  have hseek : (c.seek r).wlp counting (fun x n' => n' = n ∧ x = c.sought r) n := by
    unfold AcquireCmd.seek AcquireCmd.sought
    change (if r.hasOffset = true then _ else _ : CmdProg AcquireCmd).wlp counting _ n
    split
    · rintro x _ ⟨-, rfl⟩
      exact ⟨rfl, rfl⟩
    · exact ⟨rfl, rfl⟩
  refine wlp_seq hseek ?_
  rintro _ _ ⟨rfl, rfl⟩ x _ ⟨hx, rfl⟩
  obtain ⟨rc, out⟩ := x
  obtain rfl : rc = 0 := hx
  rintro now _ ⟨-, rfl⟩
  exact ⟨rfl, now, rfl⟩

theorem configure_wlp (hm : c.mode = 0) : (c.configure r w).wlp counting (fun x n' => n' = n ∧
    (x.1 ≠ .return ∨ ∃ a now, chosenAttr w = some a ∧ x = (.return,
      ((({ c with loops := r.loops.getD c.loops } : AcquireCmd).emptied.sized r a).sought
        r).accepted w now))) n := by
  have hsa : hits c.mode liberaIopModeSa = false := by rw [hm]; rfl
  simp only [AcquireCmd.configure, hsa]
  refine wlp_seq resizeAll_wlp ?_
  rintro _ _ ⟨rfl, rfl⟩
  cases ha : chosenAttr w with
  | none =>
    simp only [if_true]
    exact ⟨rfl, .inl (by simp)⟩
  | some a =>
    simp only [if_true]
    refine wlp_seq sizeAttr_wlp ?_
    rintro _ _ ⟨rfl, rfl⟩
    refine wlp_mono start_wlp ?_
    rintro x _ ⟨rfl, now, rfl⟩
    exact ⟨rfl, .inr ⟨a, now, rfl, rfl⟩⟩

/-- What a request comes to when every call succeeds: an acquisition, or the end. -/
theorem setHandler_wlp : (c.setHandler r).wlp counting (fun x n' => n' = n ∧
    ((x.1 ≠ .return ∨ x.2.running = .ended) ∨ ∃ w a now, chosenAttr w = some a ∧
      x = (.return, (c.prepared r a).accepted w now))) n := by
  unfold AcquireCmd.setHandler
  rintro x _ ⟨hx, rfl⟩
  obtain rfl : x = true := hx
  rintro x _ ⟨hx, rfl⟩
  obtain ⟨rc, out⟩ := x
  obtain rfl : rc = 0 := hx
  change (c.reset.request r).wlp counting _ _
  unfold AcquireCmd.request
  split
  · exact ⟨rfl, .inl (.inr rfl)⟩
  · cases hw : r.mode with
    | none => exact ⟨rfl, .inl (.inl (by simp))⟩
    | some w =>
      refine wlp_mono (configure_wlp rfl) ?_
      rintro x _ ⟨rfl, hx | ⟨a, now, ha, rfl⟩⟩
      · exact ⟨rfl, .inl (.inl hx)⟩
      · exact ⟨rfl, .inr ⟨w, a, now, ha, rfl⟩⟩

/-! ## A turn -/

/-- The command is acquiring for `l` loops and has made `n` reads. -/
structure AcquireCmd.Going (c : AcquireCmd) (l : Word) (n : ℕ) : Prop where
  untimed : c.acquireDuration = 0
  clean : c.out.error = 0
  published : c.out.mode ≠ 0
  reads : readAttr c.mode ≠ none
  counted : c.out.acquisition = BitVec.ofNat 64 n
  left : (l.toInt < 0 ∧ c.loops = l) ∨ (0 ≤ c.loops.toInt ∧ c.loops.toInt + n = l.toInt)

theorem took_eq {a : Attr} {ptr : Bool} {x : ReadOutcome} (hx : 0 ≤ x.ret) :
    ∃ o : Dataset, c.took a ptr x = { c with out := o } ∧ o.error = c.out.error ∧
      o.mode = c.out.mode ∧ o.acquisition = c.out.acquisition + 1 := by
  unfold AcquireCmd.took AcquireCmd.received
  rw [if_pos hx]
  cases ptr with
  | false => exact ⟨_, rfl, rfl, rfl, rfl⟩
  | true => exact ⟨_, rfl, rfl, rfl, rfl⟩

/-- The reading of a turn counts one acquisition. -/
theorem acquire_wlp (h : c.Going l n) : c.acquire.wlp counting (fun x n' => n' = n + 1 ∧
    ∃ o : Dataset, x = some { c with out := o } ∧ o.error = c.out.error ∧ o.mode = c.out.mode ∧
      o.acquisition = c.out.acquisition + 1) n := by
  unfold AcquireCmd.acquire
  cases ha : readAttr c.mode with
  | none => exact absurd ha h.reads
  | some a =>
    dsimp only
    rw [wlp_perform_bind]
    rintro ptr _ ⟨hptr, rfl⟩
    obtain rfl : ptr = true := hptr
    simp only [AcquireCmd.readInto, perform_bind, Bool.not_true, Bool.false_and,
      Bool.false_eq_true, if_false, Bool.true_eq_false, false_and, and_false]
    rintro x _ ⟨hx, rfl⟩
    exact ⟨rfl, (took_eq hx).imp fun o ho => ⟨congrArg some ho.1, ho.2⟩⟩

/-- The end of a turn: the loops are at their end, or there is one less. -/
theorem finish_wlp (hclean : c.out.error = 0) (hpub : c.out.mode ≠ 0) :
    c.finish.wlp counting (fun x n' => n' = n ∧
      if c.loops = 0 then x.2.running = .ended ∧ x.2.out.acquisition = c.out.acquisition
      else x = (.return, c.countDown)) n := by
  unfold AcquireCmd.finish
  by_cases hl : c.loops = 0
  · simp only [if_pos hl]
    rw [if_pos (.inl hl), wlp_perform_bind]
    rintro x _ ⟨hx, rfl⟩
    obtain ⟨rc, out⟩ := x
    obtain rfl : rc = 0 := hx
    exact ⟨rfl, rfl, rfl⟩
  · simp only [if_neg hl]
    rw [if_neg (not_or.2 ⟨hl, hpub⟩), if_neg (not_not.2 (by rwa [countDown_out]))]
    exact ⟨rfl, rfl⟩

theorem countDown_keeps : c.countDown.acquireDuration = c.acquireDuration ∧
    c.countDown.running = c.running ∧ c.countDown.mode = c.mode ∧ c.countDown.out = c.out := by
  unfold AcquireCmd.countDown
  split <;> exact ⟨rfl, rfl, rfl, rfl⟩

/-- What is left of the loops after one more read. -/
theorem countDown_left (hl : c.loops ≠ 0) (h : (l.toInt < 0 ∧ c.loops = l) ∨
    (0 ≤ c.loops.toInt ∧ c.loops.toInt + n = l.toInt)) :
    (l.toInt < 0 ∧ c.countDown.loops = l) ∨
      (0 ≤ c.countDown.loops.toInt ∧ c.countDown.loops.toInt + (n + 1 : ℕ) = l.toInt) := by
  unfold AcquireCmd.countDown
  rcases h with ⟨hneg, rfl⟩ | ⟨hnn, hsum⟩
  · have hslt : (0 : Word).slt c.loops = false := by
      rw [BitVec.slt, decide_eq_false_iff_not, not_lt]
      exact hneg.le
    rw [hslt]
    exact .inl ⟨hneg, rfl⟩
  · have hne : c.loops.toInt ≠ 0 := fun h => hl (BitVec.eq_of_toInt_eq h)
    have hslt : (0 : Word).slt c.loops = true := by
      rw [BitVec.slt, decide_eq_true_eq]
      exact lt_of_le_of_ne hnn (Ne.symm hne)
    have hdec : (c.loops - 1).toInt = c.loops.toInt - 1 := by
      have hlt := c.loops.toInt_lt
      have hone : (1 : Word).toInt = 1 := rfl
      rw [BitVec.toInt_sub, hone, Int.bmod_eq_of_le] <;> omega
    rw [hslt]
    refine .inr ⟨?_, ?_⟩ <;> simp only [if_true, hdec] <;> omega

/-- **A turn** makes one read, and counts it. It was the last one when no loop was left before. -/
theorem acquireHandler_wlp (h : c.Going l n) : c.acquireHandler.wlp counting
    (fun x n' => n' = n + 1 ∧
      if c.loops = 0 then x.2.running = .ended ∧ x.2.out.acquisition = BitVec.ofNat 64 (n + 1)
      else x.1 = .return ∧ x.2.running = c.running ∧ x.2.Going l (n + 1)) n := by
  have hcount : c.out.acquisition + 1 = BitVec.ofNat 64 (n + 1) := by
    rw [h.counted, BitVec.ofNat_add]
    rfl
  unfold AcquireCmd.acquireHandler
  rw [if_neg (not_not.2 h.untimed)]
  unfold AcquireCmd.iterate
  rw [wlp_perform_bind]
  rintro x _ ⟨hx, rfl⟩
  obtain ⟨rc, out⟩ := x
  obtain rfl : rc = 0 := hx
  obtain ⟨o₁, hstamp, herr₁, hmode₁, hacq₁⟩ : ∃ o : Dataset, c.stamp out = { c with out := o } ∧
      o.error = c.out.error ∧ o.mode = c.out.mode ∧ o.acquisition = c.out.acquisition := by
    cases out <;> exact ⟨_, rfl, rfl, rfl, rfl⟩
  have hgoing : ({ c with out := o₁ } : AcquireCmd).Going l _ :=
    ⟨h.untimed, herr₁.trans h.clean, by rw [hmode₁]; exact h.published, h.reads,
      hacq₁.trans h.counted, h.left⟩
  dsimp only
  rw [if_pos rfl, hstamp]
  refine wlp_seq (acquire_wlp hgoing) ?_
  rintro _ _ ⟨rfl, o, rfl, herr, hmode, hacq⟩
  refine wlp_mono (finish_wlp (herr.trans hgoing.clean) (hmode ▸ hgoing.published)) ?_
  rintro x _ ⟨rfl, hx⟩
  refine ⟨rfl, ?_⟩
  have hacq' := (hacq.trans (congrArg (· + 1) hacq₁)).trans hcount
  split
  · next hl =>
    rw [if_pos hl] at hx
    exact ⟨hx.1, hx.2.trans hacq'⟩
  · next hl =>
    rw [if_neg hl] at hx
    subst hx
    obtain ⟨hdur, hrun, hmode', hout⟩ := countDown_keeps (c := { c with out := o })
    refine ⟨rfl, hrun, hdur.trans h.untimed, ?_, ?_, ?_, ?_, countDown_left hl h.left⟩
    · rw [hout]
      exact herr.trans hgoing.clean
    · rw [hout]
      exact hmode ▸ hgoing.published
    · rw [hmode']
      exact h.reads
    · rw [hout]
      exact hacq'

/-! ## A run -/

/-- After `k` turns and `n` reads of an acquisition for `l` loops: it goes on, or it has ended. -/
def Job.Counts (j : Job) (l : Word) (k n : ℕ) : Prop :=
  (j.live ∧ j.cmd.Going l n ∧ n = k) ∨
    (j.Ended ∧ 0 ≤ l.toInt ∧ (n : ℤ) = l.toInt + 1 ∧ j.cmd.out.acquisition = BitVec.ofNat 64 n)

theorem counts_turn {m : JobMove} (hm : m.Valid Job.step) (hop : m.op = .acquire)
    (hsucc : AllSucceed m) (h : m.before.Counts l k n) :
    m.after.Counts l (k + 1) (n + readsOf m) := by
  rcases h with ⟨hlive, hgoing, rfl⟩ | ⟨hend, hl, hn, hacq⟩
  · obtain ⟨hrun, hthrew⟩ := job_turn hm hop hlive
    obtain ⟨hreads, hx⟩ := hrun.of_wlp (served_counting hsucc n) (acquireHandler_wlp hgoing)
    rw [readsOf, hreads]
    split at hx
    · next hl =>
      have hl₀ : m.before.cmd.loops.toInt = 0 := congrArg BitVec.toInt hl
      have hn : (n : ℤ) = l.toInt := by
        rcases hgoing.left with ⟨hneg, hl'⟩ | ⟨-, hsum⟩
        · rw [← hl', hl₀] at hneg
          exact absurd hneg (lt_irrefl 0)
        · omega
      exact .inr ⟨.inl hx.1, by omega, by push_cast; omega, hx.2⟩
    · obtain ⟨he, hnormal, hgoing'⟩ := hx
      refine .inl ⟨⟨hnormal.trans hlive.1, ?_⟩, hgoing', rfl⟩
      rw [← Bool.not_eq_true, hthrew]
      exact not_not.2 he
  · obtain ⟨hev, hafter⟩ := job_idle hm hop hend.not_live
    rw [readsOf, hev, hafter]
    exact .inr ⟨hend, hl, hn, hacq⟩

/-- **A run of turns** counts the loops of a request, from any point of it. -/
theorem turns_count {j j' : Job} {ms : List JobMove} (h : History Job.step j ms j')
    (hops : ∀ m ∈ ms, m.op = .acquire) (hsucc : ∀ m ∈ ms, AllSucceed m) (hj : j.Counts l k n) :
    j'.Counts l (k + ms.length) (n + reads ms) := by
  induction h generalizing k n with
  | nil => exact hj
  | @cons m ms s hm _ ih =>
    obtain ⟨hop, hops⟩ := List.forall_mem_cons.1 hops
    obtain ⟨hs, hsucc⟩ := List.forall_mem_cons.1 hsucc
    have hrest := ih hops hsucc (counts_turn hm hop hs hj)
    rwa [reads_cons, List.length_cons, ← Nat.add_assoc n, Nat.add_comm ms.length, ← Nat.add_assoc k]

/-! ## Runs of a request -/

/-- A run of a request: it is made, the scheduler takes its turns, and every call succeeds. -/
structure RunOf (r : Request) (j : Job) (ms : List JobMove) (j' : Job) : Prop where
  history : History Job.step j ms j'
  ops : ∃ k, ms.map Move.op = .set r :: List.replicate k .acquire
  succeed : ∀ m ∈ ms, AllSucceed m

theorem chosenAttr_ne_none (h : chosenAttr w ≠ none) : readAttr w ≠ none ∧ w ≠ 0 := by
  refine ⟨fun hr => h ?_, ?_⟩
  · unfold readAttr at hr
    unfold chosenAttr
    split_ifs at hr ⊢
    rfl
  · rintro rfl
    exact h rfl

/-- A request leaves the command at its end, or at the start of an acquisition. -/
theorem counts_set {m : JobMove} (hm : m.Valid Job.step) (hop : m.op = .set r)
    (hsucc : AllSucceed m) (hdur : r.duration.getD 0 = 0) :
    readsOf m = 0 ∧ (m.after.Ended ∨ m.after.Counts r.count 0 0) := by
  obtain ⟨hrun, hthrew⟩ := job_set hm hop
  obtain ⟨hreads, hx⟩ := hrun.of_wlp (served_counting hsucc 0) setHandler_wlp
  rw [Nat.zero_add] at hreads
  refine ⟨hreads, ?_⟩
  rcases hx with (hx | hx) | ⟨w, a, now, ha, hx⟩
  · exact .inl (.inr (hthrew.2 hx))
  · exact .inl (.inl hx)
  · obtain ⟨hres, hcmd⟩ := Prod.mk.inj hx
    obtain ⟨hread, hw⟩ := chosenAttr_ne_none (ha ▸ Option.some_ne_none a)
    obtain ⟨-, hloops, hdur', herr⟩ := prepared_cmd m.before.cmd r a
    have hlive : m.after.live := by
      refine ⟨by rw [hcmd]; rfl, ?_⟩
      rw [← Bool.not_eq_true, hthrew]
      exact not_not.2 hres
    refine .inr (.inl ⟨hlive, ?_, rfl⟩)
    rw [hcmd]
    refine ⟨hdur'.trans hdur, herr, hw, hread, rfl, ?_⟩
    rcases lt_or_ge r.count.toInt 0 with hneg | hnn
    · exact .inl ⟨hneg, hloops⟩
    · have hl : ((m.before.cmd.prepared r a).accepted w now).loops = r.count := hloops
      rw [hl]
      exact .inr ⟨hnn, by simp⟩

/-! ## Runs exist -/

theorem resizeAll_wp {size : ℕ} {as : List Attr} :
    (resizeAll size as c).wp Succeeds fun x => x.1 = true := by
  induction as generalizing c with
  | nil => rfl
  | cons a as ih =>
    refine ⟨⟨true, rfl⟩, fun x hx => ?_⟩
    obtain rfl : x = true := hx
    exact ih

theorem start_wp : (c.start r w).wp Succeeds fun _ => True := by
  have hseek : (c.seek r).wp Succeeds fun _ => True := by
    unfold AcquireCmd.seek
    split
    · exact ⟨⟨(0, .none), rfl⟩, fun x _ => trivial⟩
    · trivial
  unfold AcquireCmd.start
  refine wp_bind.2 (wp_mono hseek fun c _ => wp_perform_bind.2 ⟨⟨(0, .none), rfl⟩, fun x _ => ?_⟩)
  split
  · trivial
  · exact ⟨⟨0, trivial⟩, fun t _ => trivial⟩

/-- When every call succeeds, `setHandler` returns. -/
theorem setHandler_wp : (c.setHandler r).wp Succeeds fun _ => True := by
  have hsize : ∀ (c : AcquireCmd) a, (c.sizeAttr a r.tsamples).wp Succeeds fun _ => True := by
    intro c a
    unfold AcquireCmd.sizeAttr
    split
    · refine wp_bind.2 (wp_mono resizeAll_wp fun x hx => ?_)
      obtain ⟨ok, c⟩ := x
      obtain rfl : ok = true := hx
      exact ⟨⟨(0, .none), rfl⟩, fun x _ => trivial⟩
    · trivial
  have hconf : ∀ (c : AcquireCmd) w, (c.configure r w).wp Succeeds fun _ => True := by
    intro c w
    unfold AcquireCmd.configure
    refine wp_bind.2 (wp_mono resizeAll_wp fun x hx => ?_)
    obtain ⟨ok, c⟩ := x
    obtain rfl : ok = true := hx
    dsimp only
    rw [if_pos rfl]
    split
    · trivial
    · refine wp_bind.2 (wp_mono (hsize _ _) fun x _ => ?_)
      split
      · exact start_wp
      · trivial
  unfold AcquireCmd.setHandler
  refine wp_perform_bind.2 ⟨⟨true, rfl⟩, fun x _ => ?_⟩
  split
  · refine wp_perform_bind.2 ⟨⟨(0, .none), rfl⟩, fun x _ => ?_⟩
    split
    · trivial
    · unfold AcquireCmd.request
      split
      · trivial
      · dsimp only
        split
        · trivial
        · exact hconf _ _
  · trivial

/-- When every call succeeds, `acquireHandler` returns. -/
theorem acquireHandler_wp : c.acquireHandler.wp Succeeds fun _ => True := by
  have hfinish : ∀ c : AcquireCmd, c.finish.wp Succeeds fun _ => True := by
    intro c
    unfold AcquireCmd.finish
    split_ifs
    · exact ⟨⟨(0, .none), rfl⟩, fun x _ => trivial⟩
    · exact ⟨⟨(0, .none), rfl⟩, fun x _ => trivial⟩
    · trivial
  have hacquire : ∀ c : AcquireCmd, c.acquire.wp Succeeds fun _ => True := by
    intro c
    unfold AcquireCmd.acquire
    split
    · trivial
    · next a ha =>
      refine wp_perform_bind.2 ⟨⟨true, rfl⟩, fun ptr hptr => ?_⟩
      obtain rfl : ptr = true := hptr
      refine wp_bind.2 (wp_perform_bind.2 ⟨⟨⟨0, []⟩, le_rfl⟩, fun x _ => ?_⟩)
      rw [if_neg (by simp)]
      trivial
  have hiterate : c.iterate.wp Succeeds fun _ => True := by
    unfold AcquireCmd.iterate
    refine wp_perform_bind.2 ⟨⟨(0, .none), rfl⟩, fun x _ => ?_⟩
    refine wp_bind.2 (wp_mono (hacquire _) fun o _ => ?_)
    cases o with
    | none => trivial
    | some c => exact hfinish c
  unfold AcquireCmd.acquireHandler
  split
  · refine wp_perform_bind.2 ⟨⟨0, trivial⟩, fun t _ => ?_⟩
    split
    · trivial
    · exact hiterate
  · exact hiterate

/-- Every operation has a move in which all calls succeed. -/
theorem exists_move (op : StationOp) (j : Job) :
    ∃ m : JobMove, m.Valid Job.step ∧ m.op = op ∧ m.before = j ∧ AllSucceed m := by
  have hwp : (Job.step op j).wp Succeeds fun _ => True := by
    cases op with
    | set r => exact wp_bind.2 (wp_mono setHandler_wp fun _ _ => trivial)
    | acquire =>
      rw [Job.step]
      split
      · exact wp_bind.2 (wp_mono acquireHandler_wp fun _ _ => trivial)
      · trivial
  obtain ⟨tr, ⟨e, j'⟩, hr, hok, -⟩ := exists_runs_of_wp hwp
  exact ⟨⟨op, j, tr, e, j'⟩, hr, rfl, rfl, hok⟩

theorem exists_turns (k : ℕ) (j : Job) : ∃ ms j', History Job.step j ms j' ∧
    ms.map Move.op = List.replicate k .acquire ∧ ∀ m ∈ ms, AllSucceed m := by
  induction k generalizing j with
  | zero => exact ⟨[], j, .nil j, rfl, by simp⟩
  | succ k ih =>
    obtain ⟨m, hm, hop, rfl, hsucc⟩ := exists_move .acquire j
    obtain ⟨ms, j', hh, hops, hall⟩ := ih m.after
    exact ⟨m :: ms, j', .cons hm hh, by simp [hop, hops, List.replicate_succ],
      List.forall_mem_cons.2 ⟨hsucc, hall⟩⟩

/-- A request has runs of any number of turns. -/
theorem exists_runOf (r : Request) (k : ℕ) (j : Job) : ∃ m ms j', RunOf r j (m :: ms) j' ∧
    ms.length = k := by
  obtain ⟨m, hm, hop, rfl, hsucc⟩ := exists_move (.set r) j
  obtain ⟨ms, j', hh, hops, hall⟩ := exists_turns k m.after
  refine ⟨m, ms, j', ⟨.cons hm hh, ⟨k, by simp [hop, hops]⟩,
    List.forall_mem_cons.2 ⟨hsucc, hall⟩⟩, ?_⟩
  simpa using congrArg List.length hops

/-! ## When the loops are counted right -/

/-- What a request for a number of loops comes to, when it has no duration and every call
succeeds. -/
structure CountsLoops (r : Request) : Prop where
  exact : ∀ j ms j', RunOf r j ms j' → 1 ≤ r.count.toInt → j'.Ended →
    (reads ms : ℤ) = r.count.toInt ∧ (j'.cmd.out.acquisition.toNat : ℤ) = r.count.toInt
  endless : ∀ j ms j', RunOf r j ms j' → r.count.toInt < 0 →
    ∀ m ∈ ms, m.op = .acquire → m.before.live → m.after.live
  quiet : ∀ j ms j', RunOf r j ms j' → ∀ m ∈ ms, m.op = .acquire → m.before.Ended → readsOf m = 0

/-- A run of a request: it comes to its end at once, without a read, or goes through the turns of
an acquisition. -/
theorem RunOf.cases {j j' : Job} {m : JobMove} {ms : List JobMove} (h : RunOf r j (m :: ms) j')
    (hdur : r.duration.getD 0 = 0) : (∀ m' ∈ ms, m'.op = .acquire) ∧ readsOf m = 0 ∧
      History Job.step m.after ms j' ∧ (m.after.Ended ∨ m.after.Counts r.count 0 0) := by
  obtain ⟨-, hm, hh⟩ := History.cons_iff.1 h.history
  obtain ⟨k, hops⟩ := h.ops
  obtain ⟨hop, hops⟩ := List.cons.inj hops
  refine ⟨fun m' hm' => ?_, ?_⟩
  · have hmem := List.mem_map_of_mem (f := Move.op) hm'
    rw [hops] at hmem
    exact List.eq_of_mem_replicate hmem
  · obtain ⟨hreads, hafter⟩ := counts_set hm hop (h.succeed m List.mem_cons_self) hdur
    exact ⟨hreads, hh, hafter⟩

/-- A command at its end stays there. -/
theorem idle_history {j j' : Job} {ms : List JobMove} (h : History Job.step j ms j')
    (hops : ∀ m ∈ ms, m.op = .acquire) (hj : j.Ended) : reads ms = 0 ∧ j' = j := by
  induction h with
  | nil => exact ⟨rfl, rfl⟩
  | @cons m ms s hm _ ih =>
    obtain ⟨hop, hops⟩ := List.forall_mem_cons.1 hops
    obtain ⟨hev, hafter⟩ := job_idle hm hop hj.not_live
    obtain ⟨hreads, hs⟩ := ih hops (hafter ▸ hj)
    exact ⟨by rw [reads_cons, hreads, readsOf, hev]; rfl, hs.trans hafter⟩

/-- **The reads of a request.** At its end there were none, or one more than the loops. -/
theorem RunOf.reads_ended {j j' : Job} {ms : List JobMove} (h : RunOf r j ms j')
    (hdur : r.duration.getD 0 = 0) (hend : j'.Ended) :
    reads ms = 0 ∨ ((reads ms : ℤ) = r.count.toInt + 1 ∧
      j'.cmd.out.acquisition = BitVec.ofNat 64 (reads ms)) := by
  cases ms with
  | nil =>
    obtain ⟨k, hops⟩ := h.ops
    cases hops
  | cons m ms =>
    obtain ⟨hops, hm, hh, hafter⟩ := h.cases hdur
    rw [reads_cons, hm, Nat.zero_add]
    rcases hafter with hafter | hafter
    · exact .inl (idle_history hh hops hafter).1
    · have hcounts := turns_count hh hops (fun m' hm' => h.succeed m' (List.mem_cons_of_mem _ hm'))
        hafter
      rw [Nat.zero_add, Nat.zero_add] at hcounts
      rcases hcounts with ⟨hlive, -⟩ | ⟨-, -, hn, hacq⟩
      · exact absurd hlive hend.not_live
      · exact .inr ⟨hn, hacq⟩

/-- After more turns than loops, every run has come to its end. -/
theorem RunOf.ended {j j' : Job} {m : JobMove} {ms : List JobMove} (h : RunOf r j (m :: ms) j')
    (hdur : r.duration.getD 0 = 0) (hl : 0 ≤ r.count.toInt) (hlen : r.count.toInt < ms.length) :
    j'.Ended := by
  obtain ⟨hops, hm, hh, hafter⟩ := h.cases hdur
  rcases hafter with hafter | hafter
  · obtain ⟨-, rfl⟩ := idle_history hh hops hafter
    exact hafter
  · have hcounts := turns_count hh hops (fun m' hm' => h.succeed m' (List.mem_cons_of_mem _ hm'))
      hafter
    rcases hcounts with ⟨-, hgoing, hn⟩ | ⟨hend, -⟩
    · rcases hgoing.left with ⟨hneg, -⟩ | ⟨hnn, hsum⟩ <;> omega
    · exact hend

/-- No turn ends an acquisition for a negative number of loops. -/
theorem RunOf.goes_on {j j' : Job} {ms : List JobMove} (h : RunOf r j ms j')
    (hdur : r.duration.getD 0 = 0) (hneg : r.count.toInt < 0) :
    ∀ m ∈ ms, m.op = .acquire → m.before.live → m.after.live := by
  intro m hm hop hlive
  obtain ⟨k, hops⟩ := h.ops
  cases ms with
  | nil => cases hm
  | cons m₀ ms =>
    have hm : m ∈ ms := by
      rcases List.mem_cons.1 hm with rfl | hm
      · rw [List.map_cons, hop] at hops
        cases (List.cons.inj hops).1
      · exact hm
    obtain ⟨hacq, -, hh, hafter⟩ := h.cases hdur
    have hsucc := fun m' hm' => h.succeed m' (List.mem_cons_of_mem m₀ hm')
    obtain ⟨ms₁, ms₂, rfl⟩ := List.append_of_mem hm
    obtain ⟨s, hh₁, hh₂⟩ := History.append_iff.1 hh
    obtain ⟨rfl, hv, -⟩ := History.cons_iff.1 hh₂
    have hops₁ : ∀ m' ∈ ms₁, m'.op = .acquire := fun m' hm' => hacq m' (List.mem_append_left _ hm')
    rcases hafter with hafter | hafter
    · rw [(idle_history hh₁ hops₁ hafter).2] at hlive
      exact absurd hlive hafter.not_live
    · have hbefore := turns_count hh₁ hops₁ (fun m' hm' => hsucc m' (List.mem_append_left _ hm'))
        hafter
      rcases counts_turn hv hop (hsucc m hm) hbefore with ⟨hgo, -⟩ | ⟨-, hnn, -⟩
      · exact hgo
      · omega

/-- **The loop count.** A request without a duration has its loops counted right exactly when it
asks for none, or for no limit. -/
theorem loop_count_iff (r : Request) (hdur : r.duration.getD 0 = 0) :
    CountsLoops r ↔ r.count.toInt < 1 := by
  constructor
  · intro h
    by_contra hl
    obtain ⟨m, ms, j', hrun, hlen⟩ := exists_runOf r (r.count.toInt.toNat + 1)
      { cmd := calmCmd, threw := false }
    have hend := hrun.ended hdur (by omega) (by omega)
    have hexact := (h.exact _ _ _ hrun (by omega) hend).1
    rcases hrun.reads_ended hdur hend with hzero | ⟨hone, -⟩ <;> omega
  · intro hl
    refine ⟨fun j ms j' hrun hone => absurd hone (by omega),
      fun j ms j' hrun hneg => hrun.goes_on hdur hneg, fun j ms j' hrun m hm hop hend => ?_⟩
    rw [readsOf, (job_idle (hrun.history.valid m hm) hop hend.not_live).1]
    rfl

/-- A request for `DD` without a limit. -/
theorem loop_count_endless : CountsLoops { mode := some 1, loops := some (-1) } :=
  (loop_count_iff { mode := some 1, loops := some (-1) } rfl).2 (by decide)

/-- An interface on which every call succeeds. -/
def obliging : Handler CmdCall CmdAns Unit
  | .inl (.iop _), _ => some ((0, .none), ())
  | .inl (.read _ _ _), _ => some (⟨0, []⟩, ())
  | .inr .getAccessor, _ => some (true, ())
  | .inr (.resize _ _), _ => some (true, ())
  | .inr (.getRWPtr _), _ => some (true, ())
  | .inr .now, _ => some (0, ())
  | .inr .fault, _ => none

theorem obliging_succeeds (c : CmdCall) (u : Unit) (x : CmdAns c) (u' : Unit)
    (h : obliging c u = some (x, u')) : Succeeds c x := by
  rcases c with (r | ⟨b, a, n⟩) | (_ | _ | _ | _ | _) <;> cases h
  · rfl
  · exact le_refl (0 : ℤ)
  · rfl
  · rfl
  · rfl
  · trivial

/-- A request for one acquisition of `DD`. -/
def oneLoop : Request := { mode := some 1, loops := some 1 }

theorem oneLoop_moves : ∃ m₁ m₂ m₃, execAll obliging Job.step [.set oneLoop, .acquire, .acquire]
    { cmd := calmCmd, threw := false } () = some [m₁, m₂, m₃] ∧ reads [m₁, m₂, m₃] = 2 ∧
      m₃.after.cmd.running = .ended :=
  ⟨_, _, _, rfl, rfl, rfl⟩

/-- It makes two. -/
theorem one_loop_reads_twice : ¬∀ r : Request, r.duration.getD 0 = 0 → CountsLoops r := by
  intro h
  obtain ⟨m₁, m₂, m₃, hms, hreads, hend⟩ := oneLoop_moves
  obtain ⟨s', hh⟩ := History.of_execAll hms
  have hrun : RunOf oneLoop { cmd := calmCmd, threw := false } [m₁, m₂, m₃] s' :=
    ⟨hh, ⟨2, execAll_ops hms⟩, execAll_forall obliging_succeeds hms⟩
  have hh₃ : History _ _ ([m₁, m₂] ++ [m₃]) s' := hh
  obtain rfl : s' = m₃.after := (History.last hh₃).2
  have hexact := ((h oneLoop rfl).exact _ _ _ hrun (by decide) (.inl hend)).1
  rw [hreads] at hexact
  exact absurd hexact (by decide)

end LiberaDaq
