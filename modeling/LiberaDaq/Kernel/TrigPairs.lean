import LiberaDaq.Kernel.TrigDevice
import Mathlib.Logic.Relation

/-!
# Pairs of time stamps

The two handlers share one slot of the circular buffer: the SC handler writes the LST of a trigger
there, and the MC handler stores the pair. That is the pair of one trigger as long as the handlers
take turns. Each handler, however, takes all entries that it finds; when two triggers come before
the handlers run, the LST of the first one is overwritten, and both pairs are wrong.

What happens to the buffer of a kind of trigger is one of four steps (`ViewStep`), and the invariant
of the pairs is proved from these (`Books`).
-/

namespace LiberaDaq.Kernel

open LiberaDaq.Cspi Relation

/-- The triggers whose stamps are kept in pairs. -/
inductive TrigKind
  | trigger | postMortem
  deriving DecidableEq, Repr

/-- The number of the trigger. -/
def TrigKind.number : TrigKind → ℕ
  | .trigger => trigTrigger
  | .postMortem => trigPostMortem

/-- What concerns one kind of trigger. -/
structure TrigView where
  buf : CircBuf
  scCount : ℕ
  mcCount : ℕ
  lastLst : ℕ
  stored : List StoredPair
  leftOut : ℕ

/-- The view of the device for a kind. The stamps of POST_MORTEM are left out while its buffer is
frozen. -/
def TrigDevice.view (s : TrigDevice) (k : TrigKind) : TrigView where
  buf := s.pairedTimestamps k.number
  scCount := s.scCount k.number
  mcCount := s.mcCount k.number
  lastLst := s.lastLst k.number
  stored := s.stored k.number
  leftOut := if k = .postMortem then s.frozenOut else 0

/-- What a stamp of the kind does to the view: the LST is written or left out, the pair is stored or
left out. -/
inductive ViewStep : TrigView → TrigView → Prop
  | lst (v : TrigView) (time : BitVec 64) :
      ViewStep v { v with
        scCount := v.scCount + 1
        buf := v.buf.putLST ⟨time, v.scCount + 1⟩
        lastLst := v.scCount + 1 }
  | lstOut (v : TrigView) : ViewStep v { v with scCount := v.scCount + 1 }
  | lmt (v : TrigView) (time : BitVec 64) :
      ViewStep v { v with
        mcCount := v.mcCount + 1
        buf := v.buf.putLMT ⟨time, v.mcCount + 1⟩
        stored := v.stored ++
          [⟨{ v.buf.stamp v.buf.put with lmt := ⟨time, v.mcCount + 1⟩ }, v.lastLst⟩] }
  | lmtOut (v : TrigView) : ViewStep v { v with mcCount := v.mcCount + 1, leftOut := v.leftOut + 1 }

/-! ## The steps of the device -/

/-- The device has gone from one state to the other, by steps in the view of each kind. -/
def Moves (s s' : TrigDevice) : Prop := ∀ k, ReflTransGen ViewStep (s.view k) (s'.view k)

theorem Moves.refl (s : TrigDevice) : Moves s s := fun _ => .refl

theorem Moves.trans {s s' s'' : TrigDevice} (h : Moves s s') (h' : Moves s' s'') : Moves s s'' :=
  fun k => (h k).trans (h' k)

theorem Moves.of_view {s s' : TrigDevice} (h : ∀ k, s'.view k = s.view k) : Moves s s' :=
  fun k => h k ▸ .refl

theorem Moves.foldl {α : Type} {f : TrigDevice → α → TrigDevice} (hf : ∀ s a, Moves s (f s a))
    (as : List α) (s : TrigDevice) : Moves s (as.foldl f s) := by
  induction as generalizing s with
  | nil => exact .refl s
  | cons a as ih => exact (hf s a).trans (ih (f s a))

section

variable {g : Global} {s : TrigDevice} {k : TrigKind} {i : ℕ} {time stamp stampRaw : BitVec 64}

theorem view_countSc : (s.countSc i).view k =
    if i = k.number then { s.view k with scCount := (s.view k).scCount + 1 } else s.view k := by
  split
  · next hi =>
    subst hi
    simp [TrigDevice.view, TrigDevice.countSc]
  · next hi => simp [TrigDevice.view, TrigDevice.countSc, Function.update_of_ne (Ne.symm hi)]

theorem view_putLST : (s.putLST i time).view k =
    if i = k.number then
      { s.view k with
        buf := (s.view k).buf.putLST ⟨time, (s.view k).scCount⟩
        lastLst := (s.view k).scCount }
    else s.view k := by
  split
  · next hi =>
    subst hi
    simp [TrigDevice.view, TrigDevice.putLST]
  · next hi => simp [TrigDevice.view, TrigDevice.putLST, Function.update_of_ne (Ne.symm hi)]

theorem view_countMc : (s.countMc i).view k =
    if i = k.number then { s.view k with mcCount := (s.view k).mcCount + 1 } else s.view k := by
  split
  · next hi =>
    subst hi
    simp [TrigDevice.view, TrigDevice.countMc]
  · next hi => simp [TrigDevice.view, TrigDevice.countMc, Function.update_of_ne (Ne.symm hi)]

theorem view_putLMT : (s.putLMT i time).view k =
    if i = k.number then
      { s.view k with
        buf := (s.view k).buf.putLMT ⟨time, (s.view k).mcCount⟩
        stored := (s.view k).stored ++
          [⟨{ (s.view k).buf.stamp (s.view k).buf.put with lmt := ⟨time, (s.view k).mcCount⟩ },
            (s.view k).lastLst⟩] }
    else s.view k := by
  split
  · next hi =>
    subst hi
    simp [TrigDevice.view, TrigDevice.putLMT]
  · next hi => simp [TrigDevice.view, TrigDevice.putLMT, Function.update_of_ne (Ne.symm hi)]

theorem view_setTime : (s.setTime g).view k = s.view k := by
  unfold TrigDevice.setTime
  dsimp only
  split <;> split <;> rfl

theorem trigTrigger_ne : trigTrigger ≠ trigPostMortem := by decide

/-- A stamp that is counted and written is one step. -/
theorem moves_putLST : Moves s ((s.countSc i).putLST i time) := by
  intro k
  rw [view_putLST, view_countSc]
  split
  · exact .single (.lst _ time)
  · exact .refl

theorem moves_putLMT : Moves s ((s.countMc i).putLMT i time) := by
  intro k
  rw [view_putLMT, view_countMc]
  split
  · exact .single (.lmt _ time)
  · exact .refl

/-- A stamp of another trigger is none. -/
theorem moves_putSc (hi : ∀ k : TrigKind, i ≠ k.number) : Moves s ((s.countSc i).putSc i time) :=
  .of_view fun k => show (s.countSc i).view k = s.view k from view_countSc.trans (if_neg (hi k))

theorem moves_putMc (hi : ∀ k : TrigKind, i ≠ k.number) : Moves s ((s.countMc i).putMc i time) :=
  .of_view fun k => show (s.countMc i).view k = s.view k from view_countMc.trans (if_neg (hi k))

theorem other_of_ne (ht : i ≠ trigTrigger) (hp : i ≠ trigPostMortem) (k : TrigKind) :
    i ≠ k.number := by
  cases k with
  | trigger => exact ht
  | postMortem => exact hp

theorem moves_scTrigger : Moves s (TrigDevice.scTrigger stamp stampRaw s i) := by
  unfold TrigDevice.scTrigger
  dsimp only
  split
  · split
    · exact moves_putLST
    · exact moves_putLST
  · next ht =>
    unfold TrigDevice.scTrigSpecific
    split
    · next hpre =>
      refine moves_putSc (other_of_ne ht ?_)
      rintro rfl
      exact absurd hpre (by decide)
    · split
      · split
        · -- the buffer is frozen
          intro k
          rw [view_countSc]
          split
          · exact .single (.lstOut _)
          · exact .refl
        · exact moves_putLST
      · next hp => exact moves_putSc (other_of_ne ht hp)

theorem moves_mcTrigger : Moves s (TrigDevice.mcTrigger g stamp stampRaw s i) := by
  unfold TrigDevice.mcTrigger
  dsimp only
  split
  · split
    · have hput : Moves s ((s.countMc i).putLMT i stampRaw) := moves_putLMT
      exact hput.trans (.of_view fun k => view_setTime)
    · exact moves_putLMT
  · next ht =>
    unfold TrigDevice.mcTrigSpecific
    split
    · next hp =>
      subst hp
      unfold TrigDevice.postMortem
      split
      · -- the buffer is frozen
        intro k
        cases k with
        | trigger =>
          have hview : (s.countMc trigPostMortem).view .trigger = s.view .trigger :=
            view_countMc.trans (if_neg (Ne.symm trigTrigger_ne))
          change ReflTransGen _ _ ((s.countMc trigPostMortem).view .trigger)
          rw [hview]
        | postMortem => exact .single (.lmtOut (s.view .postMortem))
      · dsimp only
        split
        · exact moves_putLMT.trans (.of_view fun _ => rfl)
        · exact moves_putLMT
    · next hp =>
      split
      · exact moves_putMc (other_of_ne ht hp)
      · exact moves_putMc (other_of_ne ht hp)

theorem moves_scTime : Moves s { s with scTime := time } := .of_view fun _ => rfl

theorem moves_mcTime : Moves s { s with mcTime := time } := .of_view fun _ => rfl

theorem moves_scEntry (e : TrigEntry) : Moves s (s.scEntry e) := by
  have hinc : Moves s (if e.selfInc then { s with scTime := s.scTime + 0x4000000 } else s) := by
    split
    · exact moves_scTime
    · exact .refl s
  exact hinc.trans (Moves.foldl (fun _ _ => moves_scTrigger) _ _)

theorem moves_mcEntry (e : TrigEntry) : Moves s (s.mcEntry g e) := by
  have hinc : Moves s (if e.selfInc then { s with mcTime := s.mcTime + 0x4000000 } else s) := by
    split
    · exact moves_mcTime
    · exact .refl s
  exact hinc.trans (Moves.foldl (fun _ _ => moves_mcTrigger) _ _)

theorem moves_step (a : TrigAction) : Moves s (s.step g a) := by
  cases a with
  | interrupt rounds =>
    refine Moves.foldl (fun s r => ?_) _ _
    exact (Moves.foldl (fun _ e => moves_scEntry e) _ _).trans
      (Moves.foldl (fun _ e => moves_mcEntry e) _ _)
  | setCfg idx val => exact .of_view fun _ => rfl
  | setSt lst => exact .of_view fun _ => rfl
  | setMt lmt => exact .of_view fun _ => rfl
  | setScphi phi => exact .of_view fun _ => rfl
  | setMcphi phi => exact .of_view fun _ => rfl

end

/-! ## The stored pairs -/

namespace TrigView

/-- Every stored pair is of one trigger. -/
def Same (v : TrigView) : Prop := ∀ e ∈ v.stored, e.pair.lst.trigger = e.pair.lmt.trigger

/-- The handlers take turns: whenever a pair was stored, the LST that had been written last was that
of the trigger whose LMT had come. -/
def InStep (v : TrigView) : Prop := ∀ e ∈ v.stored, e.lastLst = e.pair.lmt.trigger

/-- The pairs are stored in the order of the triggers and none is lost: each LMT that is not left
out makes one, and the buffer has those that came last. -/
structure Filed (v : TrigView) : Prop where
  order : v.stored.Pairwise fun e e' => e.pair.lmt.trigger < e'.pair.lmt.trigger
  seen : ∀ e ∈ v.stored, e.pair.lmt.trigger ≤ v.mcCount
  complete : v.stored.length + v.leftOut = v.mcCount
  put : v.buf.put = v.stored.length % trigLog
  buffer : ∀ n e, v.stored[n]? = some e → v.stored.length < n + trigLog →
    v.buf.stamp (n % trigLog) = e.pair

/-- What the claim of the buffer is: pairs of one trigger each, in order and without loss. -/
structure Paired (v : TrigView) : Prop extends Filed v where
  same : v.Same

/-- Where the LST of a trigger can be whose LMT has not come: in the slot of the next pair, and only
the one that was written last. -/
structure Linked (v : TrigView) : Prop where
  early : ∀ j, (v.buf.stamp j).lst.trigger ≤ v.mcCount ∨
    j = v.buf.put ∧ (v.buf.stamp j).lst.trigger = v.lastLst
  last : v.lastLst ≤ v.mcCount ∨ (v.buf.stamp v.buf.put).lst.trigger = v.lastLst

/-- Pairs are right as long as the handlers take turns, and then the slots are in order too. -/
structure Books (v : TrigView) : Prop where
  agree : v.Same ↔ v.InStep
  linked : v.Same → v.Linked

variable {v v' : TrigView}

theorem putLST_stamp_ne {q : CircBuf} {lst : HwStamp} {j : ℕ} (hj : j ≠ q.put) :
    (q.putLST lst).stamp j = q.stamp j :=
  Function.update_of_ne hj _ _

theorem putLMT_stamp_ne {q : CircBuf} {lmt : HwStamp} {j : ℕ} (hj : j ≠ q.put) :
    (q.putLMT lmt).stamp j = q.stamp j :=
  Function.update_of_ne hj _ _

/-- The MC handler does not touch the LSTs. -/
theorem putLMT_lst (q : CircBuf) (lmt : HwStamp) (j : ℕ) :
    ((q.putLMT lmt).stamp j).lst = (q.stamp j).lst := by
  by_cases hj : j = q.put
  · subst hj
    simp [CircBuf.putLMT]
  · rw [putLMT_stamp_ne hj]

/-- Two indices less than a round apart have different slots. -/
theorem slot_ne {n m : ℕ} (hlt : n < m) (hm : m < n + trigLog) : n % trigLog ≠ m % trigLog := by
  simp only [trigLog] at *
  omega

theorem Filed.lst (h : v.Filed) (time : BitVec 64) :
    Filed { v with
      scCount := v.scCount + 1
      buf := v.buf.putLST ⟨time, v.scCount + 1⟩
      lastLst := v.scCount + 1 } where
  order := h.order
  seen := h.seen
  complete := h.complete
  put := h.put
  buffer n e he hn := by
    have hlt : n < v.stored.length := (List.getElem?_eq_some_iff.1 he).1
    have hslot : n % trigLog ≠ v.buf.put := h.put ▸ slot_ne hlt hn
    exact (putLST_stamp_ne hslot).trans (h.buffer n e he hn)

theorem Filed.lmt (h : v.Filed) (time : BitVec 64) :
    Filed { v with
      mcCount := v.mcCount + 1
      buf := v.buf.putLMT ⟨time, v.mcCount + 1⟩
      stored := v.stored ++
        [⟨{ v.buf.stamp v.buf.put with lmt := ⟨time, v.mcCount + 1⟩ }, v.lastLst⟩] } where
  order := by
    refine List.pairwise_append.2 ⟨h.order, List.pairwise_singleton _ _, fun e he e' he' => ?_⟩
    rw [List.mem_singleton.1 he']
    exact Nat.lt_succ_of_le (h.seen e he)
  seen := by
    refine List.forall_mem_append.2 ⟨fun e he => (h.seen e he).trans (Nat.le_succ _), ?_⟩
    exact List.forall_mem_singleton.2 le_rfl
  complete := by
    have := h.complete
    simp only [List.length_append, List.length_singleton]
    omega
  put := by
    simp only [CircBuf.putLMT, and_trigLogMask, h.put, List.length_append, List.length_singleton,
      Nat.mod_add_mod]
  buffer n e he hn := by
    simp only [List.length_append, List.length_singleton] at hn
    rcases Nat.lt_or_ge n v.stored.length with hlt | hge
    · rw [List.getElem?_append_left hlt] at he
      have hslot : n % trigLog ≠ v.buf.put := h.put ▸ slot_ne hlt (by omega)
      exact (putLMT_stamp_ne hslot).trans (h.buffer n e he (by omega))
    · rw [List.getElem?_append_right hge] at he
      obtain ⟨hn, he⟩ := List.getElem?_eq_some_iff.1 he
      have hn : n = v.stored.length := by
        simp only [List.length_singleton] at hn
        omega
      subst hn
      subst he
      simp [CircBuf.putLMT, ← h.put]

theorem Filed.step (h : v.Filed) (hstep : ViewStep v v') : v'.Filed := by
  cases hstep with
  | lst time => exact h.lst time
  | lstOut => exact ⟨h.order, h.seen, h.complete, h.put, h.buffer⟩
  | lmt time => exact h.lmt time
  | lmtOut =>
    exact ⟨h.order, fun e he => (h.seen e he).trans (Nat.le_succ _), congrArg Nat.succ h.complete,
      h.put, h.buffer⟩

/-- For the LMT that comes next, the slot has the LST of its trigger exactly when that was the last
one written. -/
theorem Linked.next_iff (h : v.Linked) :
    (v.buf.stamp v.buf.put).lst.trigger = v.mcCount + 1 ↔ v.lastLst = v.mcCount + 1 := by
  have hearly := h.early v.buf.put
  have hlast := h.last
  omega

theorem Linked.lst (h : v.Linked) (time : BitVec 64) :
    Linked { v with
      scCount := v.scCount + 1
      buf := v.buf.putLST ⟨time, v.scCount + 1⟩
      lastLst := v.scCount + 1 } where
  early j := by
    by_cases hj : j = v.buf.put
    · subst hj
      exact .inr ⟨rfl, by simp [CircBuf.putLST]⟩
    · rw [putLST_stamp_ne hj]
      exact .inl ((h.early j).resolve_right fun hput => hj hput.1)
  last := .inr (by simp [CircBuf.putLST])

theorem Linked.lmt (h : v.Linked) (hlast : v.lastLst = v.mcCount + 1) (time : BitVec 64)
    (stored : List StoredPair) :
    Linked { v with
      mcCount := v.mcCount + 1
      buf := v.buf.putLMT ⟨time, v.mcCount + 1⟩
      stored := stored } where
  early j := by
    have := h.early j
    simp only [putLMT_lst]
    omega
  last := .inl hlast.le

theorem Books.lmt (h : v.Books) (time : BitVec 64) :
    Books { v with
      mcCount := v.mcCount + 1
      buf := v.buf.putLMT ⟨time, v.mcCount + 1⟩
      stored := v.stored ++
        [⟨{ v.buf.stamp v.buf.put with lmt := ⟨time, v.mcCount + 1⟩ }, v.lastLst⟩] } where
  agree := by
    simp only [Same, InStep, List.forall_mem_append, List.forall_mem_singleton]
    rw [← Same, ← InStep, ← h.agree]
    exact and_congr_right fun hsame => (h.linked hsame).next_iff
  linked hsame := by
    have hboth := List.forall_mem_append.1 hsame
    have hlinked := h.linked hboth.1
    have hnew := hboth.2 _ (List.mem_singleton_self _)
    exact hlinked.lmt (hlinked.next_iff.1 hnew) time _

theorem Books.step (h : v.Books) (hstep : ViewStep v v') : v'.Books := by
  cases hstep with
  | lst time => exact ⟨h.agree, fun hsame => (h.linked hsame).lst time⟩
  | lstOut => exact ⟨h.agree, fun hsame => ⟨(h.linked hsame).early, (h.linked hsame).last⟩⟩
  | lmt time => exact h.lmt time
  | lmtOut =>
    refine ⟨h.agree, fun hsame => ⟨fun j => ?_, ?_⟩⟩
    · exact ((h.linked hsame).early j).imp_left fun hle => hle.trans (Nat.le_succ _)
    · exact (h.linked hsame).last.imp_left fun hle => hle.trans (Nat.le_succ _)

theorem Filed.run (h : v.Filed) (hrun : ReflTransGen ViewStep v v') : v'.Filed := by
  induction hrun with
  | refl => exact h
  | tail _ hstep ih => exact ih.step hstep

theorem Books.run (h : v.Books) (hrun : ReflTransGen ViewStep v v') : v'.Books := by
  induction hrun with
  | refl => exact h
  | tail _ hstep ih => exact ih.step hstep

end TrigView

open TrigView

theorem filed_start (cfg : CfgDevice) (k : TrigKind) : ((TrigDevice.start cfg).view k).Filed where
  order := .nil
  seen _ he := nomatch he
  complete := by cases k <;> rfl
  put := rfl
  buffer _ _ he := nomatch he

theorem books_start (cfg : CfgDevice) (k : TrigKind) : ((TrigDevice.start cfg).view k).Books where
  agree := ⟨fun _ _ he => (nomatch he), fun _ _ he => (nomatch he)⟩
  linked _ := ⟨fun _ => .inl le_rfl, .inl le_rfl⟩

/-- A run goes by steps in the view of each kind. -/
theorem moves_run (g : Global) (s : TrigDevice) (actions : List TrigAction) :
    Moves s (s.run g actions) :=
  .foldl (fun _ a => moves_step a) actions s

/-- In every run pairs are stored in order and without loss, whatever is in them. -/
theorem filed_run (g : Global) (cfg : CfgDevice) (actions : List TrigAction) (k : TrigKind) :
    (((TrigDevice.start cfg).run g actions).view k).Filed :=
  (filed_start cfg k).run (moves_run g (.start cfg) actions k)

theorem books_run (g : Global) (cfg : CfgDevice) (actions : List TrigAction) (k : TrigKind) :
    (((TrigDevice.start cfg).run g actions).view k).Books :=
  (books_start cfg k).run (moves_run g (.start cfg) actions k)

/-- **The pairs are right exactly when the handlers take turns.** In every run, whatever comes with
each interrupt, the stored pairs are in the order of the triggers and none is lost; they are of one
trigger each if and only if, whenever an LMT was stored, the LST written last was that of its
trigger. -/
theorem pairs_iff (g : Global) (cfg : CfgDevice) (actions : List TrigAction) (k : TrigKind) :
    (((TrigDevice.start cfg).run g actions).view k).Paired ↔
      (((TrigDevice.start cfg).run g actions).view k).InStep := by
  rw [← (books_run g cfg actions k).agree]
  exact ⟨Paired.same, fun hsame => ⟨filed_run g cfg actions k, hsame⟩⟩

/-- Two triggers come before the interrupt is served: each handler finds both. -/
theorem pairs_mixed :
    ¬ ∀ (g : Global) (cfg : CfgDevice) (actions : List TrigAction) (k : TrigKind),
      (((TrigDevice.start cfg).run g actions).view k).Paired := by
  intro h
  have hsame := (h ⟨0x01000000, 500, 100, 3, 1000, 1000, 1000⟩
      (.initSpecific ⟨0x01000000, 500, 100, 3, 1000, 1000, 1000⟩ fun _ => 0)
    [.interrupt [([⟨0x40000000, 1⟩, ⟨0x40000000, 2⟩], [⟨0x40000000, 1⟩, ⟨0x40000000, 2⟩])]]
    .trigger).same
  have hfirst := hsame _ List.mem_cons_self
  revert hfirst
  decide

end LiberaDaq.Kernel
