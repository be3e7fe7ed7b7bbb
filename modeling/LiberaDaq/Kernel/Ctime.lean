import LiberaDaq.Kernel.Rings
import LiberaDaq.Kernel.Waits
import Mathlib.Logic.Relation

/-!
# The current time

`libera_get_CTIME` triggers the FPGA and waits for the two time stamps of that trigger, which the
interrupt handlers put into two FIFOs: the SC stamp first, then the MC stamp. A call that is
interrupted by a signal while it waits leaves the stamps of its trigger to the FIFOs, where the next
call finds them. From then on every call returns the time of an earlier one (`ctime_own_iff`).
-/

namespace LiberaDaq.Kernel

open LiberaDaq.Interaction LiberaDaq.Memory Prog

/-! ## The world -/

/-- A time stamp, with the trigger that it is of, which the driver does not see. -/
structure Stamp where
  time : ℤ
  trigger : ℕ
  deriving DecidableEq, Repr

/-- The FIFOs of the CTIME trigger, and the books of what happened so far: how many triggers were
issued, how many of their stamps the handlers have put into each FIFO, and the triggers whose stamps
were taken off last. -/
structure CtimeWorld where
  sc : TrigRing Stamp
  mc : TrigRing Stamp
  issued : ℕ
  scSent : ℕ
  mcSent : ℕ
  scTaken : Option ℕ
  mcTaken : Option ℕ
  mc_le : mcSent ≤ scSent
  sc_le : scSent ≤ issued

namespace CtimeWorld

/-- A trigger is issued. -/
def issue (u : CtimeWorld) : CtimeWorld :=
  { u with issued := u.issued + 1, sc_le := u.sc_le.trans (Nat.le_succ _) }

/-- `libera_SCtrig_specific` for the CTIME trigger. -/
def deliverSc (times : Clock → ℕ → ℤ) (u : CtimeWorld) (h : u.scSent < u.issued) : CtimeWorld :=
  { u with sc := (u.sc.putTo ⟨times .lst u.scSent, u.scSent⟩).2, scSent := u.scSent + 1
           mc_le := u.mc_le.trans (Nat.le_succ _), sc_le := h }

/-- `libera_MCtrig_specific` for the CTIME trigger. -/
def deliverMc (times : Clock → ℕ → ℤ) (u : CtimeWorld) (h : u.mcSent < u.scSent) : CtimeWorld :=
  { u with
    mc := (u.mc.putTo ⟨times .lmt u.mcSent, u.mcSent⟩).2, mcSent := u.mcSent + 1, mc_le := h }

/-- A stamp is taken off the FIFO. -/
def takeSc (u : CtimeWorld) : CtimeWorld :=
  { u with sc := u.sc.getFrom.2, scTaken := u.sc.next.map Stamp.trigger }

def takeMc (u : CtimeWorld) : CtimeWorld :=
  { u with mc := u.mc.getFrom.2, mcTaken := u.mc.next.map Stamp.trigger }

/-- The world when the driver was loaded. -/
def start : CtimeWorld where
  sc := ⟨fun _ => ⟨0, 0⟩, 0, 0, zero_lt_trigLog, zero_lt_trigLog⟩
  mc := ⟨fun _ => ⟨0, 0⟩, 0, 0, zero_lt_trigLog, zero_lt_trigLog⟩
  issued := 0
  scSent := 0
  mcSent := 0
  scTaken := none
  mcTaken := none
  mc_le := le_rfl
  sc_le := le_rfl

end CtimeWorld

/-- A handler puts the next stamp into its FIFO. The SC stamp of a trigger comes before its MC
stamp. -/
inductive Delivery (times : Clock → ℕ → ℤ) : CtimeWorld → CtimeWorld → Prop
  | sc (u : CtimeWorld) (h : u.scSent < u.issued) : Delivery times u (u.deliverSc times h)
  | mc (u : CtimeWorld) (h : u.mcSent < u.scSent) : Delivery times u (u.deliverMc times h)

/-- Handlers have run. -/
abbrev Delivered (times : Clock → ℕ → ℤ) : CtimeWorld → CtimeWorld → Prop :=
  Relation.ReflTransGen (Delivery times)

/-- What the calls of `libera_get_CTIME` do, and what they give back; the others leave the FIFOs
alone. -/
def ctimeAnswer : (c : KCall) → KAns c → CtimeWorld → CtimeWorld → Prop
  | .writel r x, _, u, u' =>
    u' = if r = .scEventgen ∧ x = triggerBit trigCtime then u.issue else u
  | .emptyFifo q, x, u, u' => (q = .mc trigCtime → x = u.mc.empty) ∧ u' = u
  | .getFromFifo q, x, u, u' =>
    if q = .mc trigCtime then x = u.mc.next.map Stamp.time ∧ u' = u.takeMc
    else if q = .sc trigCtime then x = u.sc.next.map Stamp.time ∧ u' = u.takeSc
    else u' = u
  | _, _, u, u' => u' = u

/-- The same, with the handlers running at any moment. -/
def ctimeServe (times : Clock → ℕ → ℤ) : Serves KCall KAns CtimeWorld :=
  fun c x u u' => ∃ v, Delivered times u v ∧ ctimeAnswer c x v u'

/-- A call of `libera_get_CTIME`. `CTIME_sem` lets in one at a time. -/
def ctimeCall (turns : ℕ) (_ : Unit) : KProg ((ℤ × Ctime) × Unit) := do
  let r ← liberaGetCTIME turns
  Pure.pure (r, ())

/-- A call in a history. -/
abbrev CtimeMove := Move ℕ (ℤ × Ctime) (Unit × CtimeWorld) KEvent

/-- The process was signalled while it waited for the mutex of the event device, or for the MC
stamp. -/
def signalled : KEvent → Bool
  | ⟨.mutexLockInterruptible (.sem .event), x⟩ => x
  | ⟨.signalPending, x⟩ => x
  | _ => false

/-- The process was, in one of the events. -/
def Signalled (tr : List KEvent) : Prop := ∃ e ∈ tr, signalled e = true

/-- The call was interrupted after it had issued its trigger. -/
def Interrupted (m : CtimeMove) : Prop := Signalled m.events

/-- The call has returned the stamps of the trigger that it has issued. -/
def OwnTime (times : Clock → ℕ → ℤ) (m : CtimeMove) : Prop :=
  m.after.2.scTaken = some m.before.2.issued ∧ m.after.2.mcTaken = some m.before.2.issued ∧
    m.result.2 = ⟨times .lst m.before.2.issued, times .lmt m.before.2.issued⟩

variable {times : Clock → ℕ → ℤ} {u u' : CtimeWorld} {q : TrigRing Stamp} {sent issued k : ℕ}

/-! ## The stamps that are due -/

/-- The triggers whose stamps are in a FIFO or still to be put there, in this order. -/
def line (q : TrigRing Stamp) (sent issued : ℕ) : List ℕ :=
  q.items.map Stamp.trigger ++ List.range' sent (issued - sent)

theorem range'_sent (h : sent < issued) :
    List.range' sent (issued - sent) = sent :: List.range' (sent + 1) (issued - (sent + 1)) := by
  obtain ⟨n, rfl⟩ := Nat.exists_eq_add_of_lt h
  have hn : sent + n + 1 - sent = n + 1 := by omega
  have hn' : sent + n + 1 - (sent + 1) = n := by omega
  rw [hn, hn', List.range'_succ]

theorem line_issue (h : sent ≤ issued) :
    line q sent (issued + 1) = line q sent issued ++ [issued] := by
  have hn : issued + 1 - sent = issued - sent + 1 := by omega
  rw [line, hn, List.range'_concat, ← List.append_assoc, Nat.one_mul, Nat.add_sub_cancel' h, line]

/-- A delivery moves the next trigger into the FIFO, unless it is full: then its stamp is lost. -/
theorem line_putTo {t : ℤ} (h : sent < issued) :
    line (q.putTo ⟨t, sent⟩).2 (sent + 1) issued =
      if q.items.length < trigLog - 1 then line q sent issued
      else q.items.map Stamp.trigger ++ List.range' (sent + 1) (issued - (sent + 1)) := by
  rw [line, TrigRing.items_putTo, line, range'_sent h]
  split
  · rw [List.map_append, List.append_assoc]
    rfl
  · rfl

/-- A short line is not changed by deliveries. -/
theorem line_putTo_short {t : ℤ} (h : sent < issued)
    (hline : (line q sent issued).length < trigLog) :
    line (q.putTo ⟨t, sent⟩).2 (sent + 1) issued = line q sent issued := by
  rw [line, List.length_append, List.length_map, List.length_range'] at hline
  rw [line_putTo h, if_pos (by omega)]

theorem line_getFrom {s : Stamp} {rest : List Stamp} (h : q.items = s :: rest) :
    line q sent issued = s.trigger :: line q.getFrom.2 sent issued := by
  rw [line, line, TrigRing.items_getFrom, h]
  rfl

namespace CtimeWorld

/-- The SC stamps that are due. -/
def scLine (u : CtimeWorld) : List ℕ := line u.sc u.scSent u.issued

/-- The MC stamps that are due. -/
def mcLine (u : CtimeWorld) : List ℕ := line u.mc u.mcSent u.issued

/-- The stamps in the FIFOs are those of their triggers, which have been issued. -/
structure WellStamped (times : Clock → ℕ → ℤ) (u : CtimeWorld) : Prop where
  sc : ∀ s ∈ u.sc.items, s.time = times .lst s.trigger
  mc : ∀ s ∈ u.mc.items, s.time = times .lmt s.trigger ∧ s.trigger < u.mcSent

theorem mem_items_putTo {s s' : Stamp} (h : s ∈ (q.putTo s').2.items) : s ∈ q.items ∨ s = s' := by
  rw [TrigRing.items_putTo] at h
  split at h
  · simpa using h
  · exact .inl h

theorem WellStamped.delivery (hu : u.WellStamped times) (h : Delivery times u u') :
    u'.WellStamped times := by
  cases h with
  | sc h =>
    refine ⟨fun s hs => ?_, hu.mc⟩
    rcases mem_items_putTo hs with hs | rfl
    · exact hu.sc s hs
    · rfl
  | mc h =>
    refine ⟨hu.sc, fun s hs => ?_⟩
    rcases mem_items_putTo hs with hs | rfl
    · exact ⟨(hu.mc s hs).1, (hu.mc s hs).2.trans (Nat.lt_succ_self _)⟩
    · exact ⟨rfl, Nat.lt_succ_self _⟩

theorem WellStamped.takeSc (hu : u.WellStamped times) : u.takeSc.WellStamped times := by
  refine ⟨fun s hs => hu.sc s ?_, hu.mc⟩
  rw [CtimeWorld.takeSc, TrigRing.items_getFrom] at hs
  exact List.mem_of_mem_tail hs

theorem WellStamped.takeMc (hu : u.WellStamped times) : u.takeMc.WellStamped times := by
  refine ⟨hu.sc, fun s hs => hu.mc s ?_⟩
  rw [CtimeWorld.takeMc, TrigRing.items_getFrom] at hs
  exact List.mem_of_mem_tail hs

/-- Short lines are not changed by deliveries. -/
theorem lines_delivery (h : Delivery times u u') (hs : u.scLine.length < trigLog)
    (hm : u.mcLine.length < trigLog) : u'.scLine = u.scLine ∧ u'.mcLine = u.mcLine := by
  cases h with
  | sc h => exact ⟨line_putTo_short h hs, rfl⟩
  | mc h => exact ⟨rfl, line_putTo_short (h.trans_le u.sc_le) hm⟩

/-- No stamps are due. -/
structure Idle (times : Clock → ℕ → ℤ) (u : CtimeWorld) : Prop where
  well : u.WellStamped times
  sc : u.scLine = []
  mc : u.mcLine = []

/-- The stamps of the trigger `k` are due, and no others. -/
structure Awaits (times : Clock → ℕ → ℤ) (k : ℕ) (u : CtimeWorld) : Prop where
  well : u.WellStamped times
  sc : u.scLine = [k]
  mc : u.mcLine = [k]
  issued : u.issued = k + 1

/-- MC stamps are due. -/
structure Late (times : Clock → ℕ → ℤ) (u : CtimeWorld) : Prop where
  well : u.WellStamped times
  mc : u.mcLine ≠ []

/-- The MC stamp that is due first is of a trigger before `k`, and it is not the only one. -/
structure Ahead (times : Clock → ℕ → ℤ) (k : ℕ) (u : CtimeWorld) : Prop where
  well : u.WellStamped times
  mc : ∃ j j' rest, u.mcLine = j :: j' :: rest ∧ j < k

theorem Idle.delivery (hu : u.Idle times) (h : Delivery times u u') : u'.Idle times := by
  obtain ⟨hs, hm⟩ := lines_delivery h (by simp [hu.sc, trigLog]) (by simp [hu.mc, trigLog])
  exact ⟨hu.well.delivery h, hs.trans hu.sc, hm.trans hu.mc⟩

theorem Awaits.delivery (hu : u.Awaits times k) (h : Delivery times u u') : u'.Awaits times k := by
  obtain ⟨hs, hm⟩ := lines_delivery h (by simp [hu.sc, trigLog]) (by simp [hu.mc, trigLog])
  refine ⟨hu.well.delivery h, hs.trans hu.sc, hm.trans hu.mc, ?_⟩
  cases h with
  | sc | mc => exact hu.issued

/-- A delivery changes the line of the MC stamps only where the FIFO is full, and behind it. -/
theorem mcLine_delivery (h : Delivery times u u') : u'.mcLine = u.mcLine ∨
    trigLog - 1 ≤ u.mc.items.length ∧ ∃ rest rest',
      u.mcLine = u.mc.items.map Stamp.trigger ++ rest ∧
      u'.mcLine = u.mc.items.map Stamp.trigger ++ rest' := by
  cases h with
  | sc h => exact .inl rfl
  | mc h =>
    have hline := line_putTo (q := u.mc) (t := times .lmt u.mcSent) (h.trans_le u.sc_le)
    by_cases hroom : u.mc.items.length < trigLog - 1
    · rw [if_pos hroom] at hline
      exact .inl hline
    · rw [if_neg hroom] at hline
      exact .inr ⟨Nat.le_of_not_lt hroom, _, _, rfl, hline⟩

theorem Late.delivery (hu : u.Late times) (h : Delivery times u u') : u'.Late times := by
  refine ⟨hu.well.delivery h, ?_⟩
  rcases mcLine_delivery h with heq | ⟨hfull, rest, rest', -, hline⟩
  · rw [heq]
    exact hu.mc
  · rw [hline]
    intro hnil
    have hitems := List.map_eq_nil_iff.1 (List.append_eq_nil_iff.1 hnil).1
    rw [hitems] at hfull
    exact absurd hfull (by decide)

theorem Ahead.delivery (hu : u.Ahead times k) (h : Delivery times u u') : u'.Ahead times k := by
  refine ⟨hu.well.delivery h, ?_⟩
  obtain ⟨j, j', due, hdue, hj⟩ := hu.mc
  rcases mcLine_delivery h with heq | ⟨hfull, rest, rest', hbefore, hline⟩
  · exact ⟨j, j', due, heq.trans hdue, hj⟩
  · match hitems : u.mc.items, hfull with
    | [], hfull | [_], hfull => simp [trigLog] at hfull
    | s :: s' :: items, _ =>
      rw [hitems] at hbefore hline
      rw [hdue] at hbefore
      obtain rfl := (List.cons.inj hbefore).1
      exact ⟨_, _, _, hline, hj⟩

/-- The MC stamp of the trigger `k` was taken, and its SC stamp is still due. -/
structure Half (times : Clock → ℕ → ℤ) (k : ℕ) (u : CtimeWorld) : Prop where
  well : u.WellStamped times
  sc : u.scLine = [k]
  mc : u.mcLine = []
  taken : u.mcTaken = some k

theorem Half.delivery (hu : u.Half times k) (h : Delivery times u u') : u'.Half times k := by
  obtain ⟨hs, hm⟩ := lines_delivery h (by simp [hu.sc, trigLog]) (by simp [hu.mc, trigLog])
  refine ⟨hu.well.delivery h, hs.trans hu.sc, hm.trans hu.mc, ?_⟩
  cases h with
  | sc | mc => exact hu.taken

/-- The MC stamp that comes first is taken. -/
theorem mcLine_takeMc {s : Stamp} {rest : List Stamp} (h : u.mc.items = s :: rest) :
    u.mcLine = s.trigger :: u.takeMc.mcLine ∧ u.takeMc.mcTaken = some s.trigger := by
  refine ⟨line_getFrom h, ?_⟩
  rw [takeMc, TrigRing.next_eq, h]
  rfl

theorem Awaits.takeMc {s : Stamp} {rest : List Stamp} (hu : u.Awaits times k)
    (h : u.mc.items = s :: rest) : u.takeMc.Half times k ∧ s.time = times .lmt k := by
  obtain ⟨hline, htaken⟩ := mcLine_takeMc h
  rw [hu.mc] at hline
  obtain ⟨hk, hnil⟩ := List.cons.inj hline
  have hs := (hu.well.mc s (h ▸ List.mem_cons_self)).1
  rw [← hk] at htaken hs
  exact ⟨⟨hu.well.takeMc, hu.sc, hnil.symm, htaken⟩, hs⟩

/-- As the MC stamp of the trigger was taken, its SC stamp is in the FIFO. -/
theorem Half.items (hu : u.Half times k) :
    ∃ s, u.sc.items = [s] ∧ s.trigger = k ∧ s.time = times .lst k := by
  have hmc := (List.append_eq_nil_iff.1 hu.mc).2
  rw [List.range'_eq_nil_iff] at hmc
  have hsent : u.issued - u.scSent = 0 := by
    have := u.mc_le
    omega
  have hline := hu.sc
  rw [scLine, line, hsent, List.range'_zero, List.append_nil, List.map_eq_singleton_iff] at hline
  obtain ⟨s, hs, hk⟩ := hline
  exact ⟨s, hs, hk, hk ▸ hu.well.sc s (hs ▸ List.mem_singleton_self s)⟩

theorem Half.takeSc (hu : u.Half times k) : u.takeSc.Idle times ∧ u.takeSc.scTaken = some k := by
  obtain ⟨s, hs, hk, -⟩ := hu.items
  have hline := hu.sc
  rw [scLine, line_getFrom hs] at hline
  refine ⟨⟨hu.well.takeSc, (List.cons.inj hline).2, hu.mc⟩, ?_⟩
  rw [CtimeWorld.takeSc, TrigRing.next_eq, hs, ← hk]
  rfl

/-- A trigger is issued while no stamps are due. -/
theorem Idle.issue (hu : u.Idle times) : u.issue.Awaits times u.issued where
  well := ⟨hu.well.sc, hu.well.mc⟩
  sc := (line_issue u.sc_le).trans (congrArg (· ++ _) hu.sc)
  mc := (line_issue (u.mc_le.trans u.sc_le)).trans (congrArg (· ++ _) hu.mc)
  issued := rfl

/-- A trigger is issued while MC stamps are due. -/
theorem Late.issue (hu : u.Late times) : u.issue.Ahead times u.issued where
  well := ⟨hu.well.sc, hu.well.mc⟩
  mc := by
    have hline : u.issue.mcLine = u.mcLine ++ [u.issued] := line_issue (u.mc_le.trans u.sc_le)
    have hold : ∀ j ∈ u.mcLine, j < u.issued := by
      intro j hj
      rcases List.mem_append.1 hj with hj | hj
      · obtain ⟨s, hs, rfl⟩ := List.mem_map.1 hj
        exact (hu.well.mc s hs).2.trans_le (u.mc_le.trans u.sc_le)
      · have := List.mem_range'_1.1 hj
        omega
    obtain ⟨j, rest, hdue⟩ := List.exists_cons_of_ne_nil hu.mc
    rw [hdue] at hline hold
    cases rest with
    | nil => exact ⟨j, _, _, hline, hold j List.mem_cons_self⟩
    | cons j' rest => exact ⟨j, _, _, hline, hold j List.mem_cons_self⟩

end CtimeWorld

/-! ## The call -/

variable {I : CtimeWorld → Prop} {t : List KEvent} {turns : ℕ} {α : Type}

theorem signalled_concat {e : KEvent} :
    Signalled (t ++ [e]) ↔ Signalled t ∨ signalled e = true := by
  simp [Signalled, or_and_right, exists_or]

theorem delivered_of (hI : ∀ u u', Delivery times u u' → I u → I u') (hu : I u)
    (h : Delivered times u u') : I u' := by
  induction h with
  | refl => exact hu
  | tail _ hd ih => exact hI _ _ hd ih

/-- Deliveries take nothing off the FIFOs. -/
theorem delivered_taken (h : Delivered times u u') :
    u'.scTaken = u.scTaken ∧ u'.mcTaken = u.mcTaken := by
  refine delivered_of (I := fun v => v.scTaken = u.scTaken ∧ v.mcTaken = u.mcTaken) ?_ ⟨rfl, rfl⟩ h
  intro v v' hd hv
  cases hd with
  | sc | mc => exact hv

theorem delivered_issued (h : Delivered times u u') : u'.issued = u.issued := by
  refine delivered_of (I := fun v => v.issued = u.issued) ?_ rfl h
  intro v v' hd hv
  cases hd with
  | sc | mc => exact hv

theorem delivered_items (h : Delivered times u u') (hu : u.mc.items ≠ []) : u'.mc.items ≠ [] := by
  refine delivered_of (I := fun v => v.mc.items ≠ []) ?_ hu h
  intro v v' hd hv
  cases hd with
  | sc => exact hv
  | mc =>
    rw [CtimeWorld.deliverMc, TrigRing.items_putTo]
    split
    · simp
    · exact hv

/-- A sequence that begins with a call, in a world where handlers run before it. -/
theorem wlp_ctime_bind {c : KCall} {f : KAns c → KProg α} {Q : α → CtimeWorld × List KEvent → Prop}
    (h : ∀ x v u', Delivered times u v → ctimeAnswer c x v u' →
      (f x).wlp (record (ctimeServe times)) Q (u', t ++ [⟨c, x⟩])) :
    (kcall c >>= f).wlp (record (ctimeServe times)) Q (u, t) := by
  rintro x ⟨u', _⟩ ⟨⟨v, hv, hx⟩, rfl⟩
  exact h x v u' hv hx

/-- The wait is over: the FIFO holds a stamp, or the process was signalled. -/
def Waited (I : CtimeWorld → Prop) (ret : ℤ) (w : CtimeWorld × List KEvent) : Prop :=
  I w.1 ∧ (ret = 0 ∧ w.1.mc.items ≠ [] ∧ ¬Signalled w.2 ∨ ret = -eRestartSys ∧ Signalled w.2)

theorem wlp_sleepOnFifo (hI : ∀ u u', Delivery times u u' → I u → I u') (hu : I u)
    (ht : ¬Signalled t) : (sleepOnFifo .event (.mc trigCtime) turns).wlp
      (record (ctimeServe times)) (Waited I) (u, t) := by
  induction turns generalizing u t with
  | zero => exact fun e => Empty.elim e
  | succ turns ih =>
    rw [sleepOnFifo]
    refine wlp_ctime_bind fun x v u₁ hv ⟨hx, hu₁⟩ => ?_
    have hu₁' : I u₁ := hu₁ ▸ delivered_of hI hu hv
    have ht₁ : ¬Signalled (t ++ [⟨.emptyFifo (.mc trigCtime), x⟩]) := by
      rw [signalled_concat]
      simpa [signalled] using ht
    obtain rfl := hx rfl
    cases hempty : v.mc.empty with
    | false =>
      rw [hempty] at ht₁
      refine ⟨hu₁', .inl ⟨rfl, fun hnil => ?_, ht₁⟩⟩
      rw [hu₁, ← TrigRing.empty_iff, hempty] at hnil
      cases hnil
    | true =>
      rw [hempty] at ht₁
      refine wlp_ctime_bind fun pending v₂ u₂ hv₂ hu₂ => ?_
      have hu₂' : I u₂ := (show u₂ = v₂ from hu₂) ▸ delivered_of hI hu₁' hv₂
      cases pending with
      | true =>
        refine ⟨hu₂', .inr ⟨rfl, signalled_concat.2 (.inr rfl)⟩⟩
      | false =>
        refine wlp_ctime_bind fun _ v₃ u₃ hv₃ hu₃ => wlp_ctime_bind fun _ v₄ u₄ hv₄ hu₄ =>
          wlp_ctime_bind fun _ v₅ u₅ hv₅ hu₅ => ih ?_ ?_
        · have hu₃' : I u₃ := (show u₃ = v₃ from hu₃) ▸ delivered_of hI hu₂' hv₃
          have hu₄' : I u₄ := (show u₄ = v₄ from hu₄) ▸ delivered_of hI hu₃' hv₄
          exact (show u₅ = v₅ from hu₅) ▸ delivered_of hI hu₄' hv₅
        · simp only [signalled_concat, not_or]
          rw [signalled_concat, not_or] at ht₁
          exact ⟨⟨⟨⟨⟨ht₁.1, ht₁.2⟩, by simp [signalled]⟩, by simp [signalled]⟩,
            by simp [signalled]⟩,
            by simp [signalled]⟩

theorem wlp_waitForFifo (hI : ∀ u u', Delivery times u u' → I u → I u') (hu : I u)
    (ht : ¬Signalled t) : (waitForFifo .event (.mc trigCtime) turns).wlp
      (record (ctimeServe times)) (Waited I) (u, t) := by
  rw [waitForFifo]
  refine wlp_ctime_bind fun x v u₁ hv ⟨hx, hu₁⟩ => ?_
  have hu₁' : I u₁ := hu₁ ▸ delivered_of hI hu hv
  have ht₁ : ¬Signalled (t ++ [⟨.emptyFifo (.mc trigCtime), x⟩]) := by
    rw [signalled_concat]
    simpa [signalled] using ht
  obtain rfl := hx rfl
  split
  · exact wlp_sleepOnFifo hI hu₁' ht₁
  · next hempty =>
    refine ⟨hu₁', .inl ⟨rfl, fun hnil => ?_, ht₁⟩⟩
    rw [hu₁, ← TrigRing.empty_iff] at hnil
    exact hempty hnil

/-- The MC stamp was taken, or the process was signalled. -/
def TakenMc (times : Clock → ℕ → ℤ) (I : CtimeWorld → Prop) (out : ℤ × Option ℤ)
    (w : CtimeWorld × List KEvent) : Prop :=
  out.1 = 0 ∧ ¬Signalled w.2 ∧ (∃ v s rest, I v ∧ v.mc.items = s :: rest ∧ out.2 = some s.time ∧
      Delivered times v.takeMc w.1) ∨
    out.1 ≠ 0 ∧ Signalled w.2 ∧ I w.1

theorem wlp_blockedLocked (hI : ∀ u u', Delivery times u u' → I u → I u') (hu : I u)
    (ht : ¬Signalled t) : (blockedLocked (.mc trigCtime) turns).wlp
      (record (ctimeServe times)) (TakenMc times I) (u, t) := by
  rw [blockedLocked]
  refine wlp_seq (wlp_waitForFifo hI hu ht) ?_
  rintro ret ⟨u₁, t₁⟩ ⟨hu₁, ⟨rfl, hitems, ht₁⟩ | ⟨rfl, ht₁⟩⟩
  · rw [if_neg (not_not.2 rfl)]
    refine wlp_ctime_bind fun x v u₂ hv hx => ?_
    simp only [ctimeAnswer, if_true] at hx
    obtain ⟨rfl, rfl⟩ := hx
    obtain ⟨s, rest, hs⟩ := List.exists_cons_of_ne_nil (delivered_items hv hitems)
    have hnext : v.mc.next = some s := by rw [TrigRing.next_eq, hs, List.head?_cons]
    rw [hnext]
    refine .inl ⟨rfl, ?_, v, s, rest, delivered_of hI hu₁ hv, hs, rfl, .refl⟩
    rw [signalled_concat]
    simpa [signalled] using ht₁
  · rw [if_pos (by decide)]
    exact .inr ⟨by decide, ht₁, hu₁⟩

theorem wlp_getBlockedFromFIFO (hI : ∀ u u', Delivery times u u' → I u → I u') (hu : I u)
    (ht : ¬Signalled t) : (getBlockedFromFIFO (.mc trigCtime) turns).wlp
      (record (ctimeServe times)) (TakenMc times I) (u, t) := by
  rw [getBlockedFromFIFO, mutexLockInterruptible]
  refine wlp_ctime_bind fun interrupted v u₁ hv hu₁ => ?_
  have hu₁' : I u₁ := (show u₁ = v from hu₁) ▸ delivered_of hI hu hv
  cases interrupted with
  | true => exact .inr ⟨by decide, signalled_concat.2 (.inr rfl), hu₁'⟩
  | false =>
    have ht₁ : ¬Signalled (t ++ [⟨.mutexLockInterruptible (.sem .event), false⟩]) := by
      rw [signalled_concat]
      simpa [signalled] using ht
    refine wlp_seq (wlp_blockedLocked hI hu₁' ht₁) ?_
    rintro out ⟨u₂, t₂⟩ h
    refine wlp_ctime_bind fun _ v₃ u₃ hv₃ hu₃ => ?_
    obtain rfl : u₃ = v₃ := hu₃
    rcases h with ⟨hrc, ht₂, v, s, rest, hv, hs, hout, hd⟩ | ⟨hrc, ht₂, hu₂⟩
    · refine .inl ⟨hrc, ?_, v, s, rest, hv, hs, hout, hd.trans hv₃⟩
      rw [signalled_concat]
      simpa [signalled] using ht₂
    · exact .inr ⟨hrc, signalled_concat.2 (.inl ht₂), delivered_of hI hu₂ hv₃⟩

/-- Both stamps were taken, or the process was signalled. -/
def TakenBoth (times : Clock → ℕ → ℤ) (I : CtimeWorld → Prop) (out : ℤ × Ctime)
    (w : CtimeWorld × List KEvent) : Prop :=
  ¬Signalled w.2 ∧ (∃ v s rest v', I v ∧ v.mc.items = s :: rest ∧ Delivered times v.takeMc v' ∧
      Delivered times v'.takeSc w.1 ∧
      (out.1 = 0 → ∃ s', v'.sc.items.head? = some s' ∧ out.2 = ⟨s'.time, s.time⟩)) ∨
    out.1 ≠ 0 ∧ Signalled w.2 ∧ I w.1

theorem wlp_ctimeLocked (hI : ∀ u u', Delivery times u u' → I u → I u')
    (hu : ∀ v, Delivered times u v → I v.issue) (ht : ¬Signalled t) :
    (ctimeLocked turns).wlp (record (ctimeServe times)) (TakenBoth times I) (u, t) := by
  rw [ctimeLocked]
  refine wlp_ctime_bind fun _ v u₁ hv hu₁ => ?_
  have hu₁' : I u₁ := by
    obtain rfl : u₁ = v.issue := hu₁
    exact hu v hv
  have ht₁ : ¬Signalled (t ++ [⟨.writel .scEventgen (triggerBit trigCtime), ()⟩]) := by
    rw [signalled_concat]
    simpa [signalled] using ht
  refine wlp_seq (wlp_getBlockedFromFIFO hI hu₁' ht₁) ?_
  rintro ⟨ret, lmt⟩ ⟨u₂, t₂⟩ (⟨rfl, ht₂, v₂, s, rest, hv₂, hs, rfl, hd⟩ | ⟨hrc, ht₂, hu₂⟩)
  · dsimp only
    rw [if_neg (not_not.2 rfl)]
    refine wlp_ctime_bind fun x v₃ u₃ hv₃ hx => ?_
    simp only [ctimeAnswer, if_true] at hx
    rw [if_neg (by decide)] at hx
    obtain ⟨rfl, rfl⟩ := hx
    have ht₃ : ∀ x, ¬Signalled (t₂ ++ [⟨.getFromFifo (.sc trigCtime), x⟩]) := fun x => by
      rw [signalled_concat]
      simpa [signalled] using ht₂
    cases hnext : v₃.sc.next with
    | none =>
      refine .inl ⟨ht₃ _, v₂, s, rest, v₃, hv₂, hs, hd.trans hv₃, .refl, fun h => ?_⟩
      exact absurd h (show ¬-eFault = 0 by decide)
    | some s' =>
      refine .inl ⟨ht₃ _, v₂, s, rest, v₃, hv₂, hs, hd.trans hv₃, .refl, fun _ => ⟨s', ?_, rfl⟩⟩
      rw [← TrigRing.next_eq, hnext]
  · dsimp only
    rw [if_pos hrc]
    exact .inr ⟨hrc, ht₂, hu₂⟩

/-- What a call comes to, from its start with the handlers running: it got no mutex, or both stamps
were taken, or the process was signalled. -/
theorem wlp_liberaGetCTIME (hI : ∀ u u', Delivery times u u' → I u → I u')
    (hu : ∀ v, Delivered times u v → I v.issue) :
    (liberaGetCTIME turns).wlp (record (ctimeServe times)) (fun out w =>
      out.1 ≠ 0 ∧ ¬Signalled w.2 ∧ Delivered times u w.1 ∨ TakenBoth times I out w) (u, []) := by
  have hnil : ¬Signalled [] := by simp [Signalled]
  rw [liberaGetCTIME, mutexLockInterruptible]
  refine wlp_ctime_bind fun interrupted v u₁ hv hu₁ => ?_
  obtain rfl : u₁ = v := hu₁
  have ht₁ : ¬Signalled ([] ++ [⟨.mutexLockInterruptible .ctime, interrupted⟩]) := by
    rw [signalled_concat]
    simpa [signalled] using hnil
  cases interrupted with
  | true => exact .inl ⟨by decide, ht₁, hv⟩
  | false =>
    refine wlp_seq (wlp_ctimeLocked hI (fun v' hv' => hu v' (hv.trans hv')) ht₁) ?_
    rintro out ⟨u₂, t₂⟩ h
    refine wlp_ctime_bind fun _ v₃ u₃ hv₃ hu₃ => ?_
    obtain rfl : u₃ = v₃ := hu₃
    refine .inr ?_
    rcases h with ⟨ht₂, v₄, s, rest, v₅, hv₄, hs, hd, hd', hout⟩ | ⟨hrc, ht₂, hu₂⟩
    · refine .inl ⟨?_, v₄, s, rest, v₅, hv₄, hs, hd, hd'.trans hv₃, hout⟩
      rw [signalled_concat]
      simpa [signalled] using ht₂
    · exact .inr ⟨hrc, signalled_concat.2 (.inl ht₂), delivered_of hI hu₂ hv₃⟩

/-! ## Calls in a history -/

theorem call_spec {m : CtimeMove} (hm : m.ServedBy ctimeCall (ctimeServe times))
    (hI : ∀ u u', Delivery times u u' → I u → I u')
    (hu : ∀ v, Delivered times m.before.2 v → I v.issue) :
    m.result.1 ≠ 0 ∧ ¬Interrupted m ∧ Delivered times m.before.2 m.after.2 ∨
      TakenBoth times I m.result (m.after.2, m.events) := by
  have hspec : (ctimeCall m.op m.before.1).wlp (record (ctimeServe times)) (fun r w =>
      r.1.1 ≠ 0 ∧ ¬Signalled w.2 ∧ Delivered times m.before.2 w.1 ∨ TakenBoth times I r.1 w)
      (m.before.2, []) := wlp_bind.2 (wlp_liberaGetCTIME hI hu)
  exact hm.of_wlp_record hspec

/-- A call while no stamps are due returns those of its own trigger, unless it is interrupted: then
they stay due. -/
theorem idle_call {m : CtimeMove} (hm : m.ServedBy ctimeCall (ctimeServe times))
    (h : m.before.2.Idle times) :
    ¬Interrupted m ∧ m.after.2.Idle times ∧ (m.result.1 = 0 → OwnTime times m) ∨
      Interrupted m ∧ m.result.1 ≠ 0 ∧ m.after.2.Late times := by
  have hidle : ∀ v, Delivered times m.before.2 v → v.Idle times := fun v hv =>
    delivered_of (fun _ _ hd hu => hu.delivery hd) h hv
  have hissue : ∀ v, Delivered times m.before.2 v → v.issue.Awaits times m.before.2.issued :=
    fun v hv => delivered_issued hv ▸ (hidle v hv).issue
  rcases call_spec hm (fun _ _ hd hu => CtimeWorld.Awaits.delivery hu hd) hissue with
    ⟨hrc, hint, hd⟩ | ⟨hint, v, s, rest, v', hv, hs, hd, hd', hout⟩ | ⟨hrc, hint, hv⟩
  · exact .inl ⟨hint, hidle _ hd, fun h0 => absurd h0 hrc⟩
  · obtain ⟨hhalf, hlmt⟩ := hv.takeMc hs
    have hhalf' : v'.Half times m.before.2.issued :=
      delivered_of (fun _ _ hd hu => hu.delivery hd) hhalf hd
    obtain ⟨hidle', hsc⟩ := hhalf'.takeSc
    obtain ⟨htaken, htaken'⟩ := delivered_taken hd'
    refine .inl ⟨hint, delivered_of (fun _ _ hd hu => hu.delivery hd) hidle' hd', fun h0 => ?_⟩
    obtain ⟨s', hs', hres⟩ := hout h0
    obtain ⟨s₁, hs₁, -, hlst⟩ := hhalf'.items
    rw [hs₁, List.head?_cons, Option.some.injEq] at hs'
    refine ⟨htaken.trans hsc, htaken'.trans hhalf'.taken, ?_⟩
    rw [hres, ← hs', hlst, hlmt]
  · refine .inr ⟨hint, hrc, hv.well, ?_⟩
    rw [hv.mc]
    exact List.cons_ne_nil _ _

/-- A call while MC stamps are due returns one of another trigger, and stamps stay due. -/
theorem late_call {m : CtimeMove} (hm : m.ServedBy ctimeCall (ctimeServe times))
    (h : m.before.2.Late times) :
    m.after.2.Late times ∧ (m.result.1 = 0 → ¬OwnTime times m) := by
  have hlate : ∀ v, Delivered times m.before.2 v → v.Late times := fun v hv =>
    delivered_of (fun _ _ hd hu => hu.delivery hd) h hv
  have hissue : ∀ v, Delivered times m.before.2 v → v.issue.Ahead times m.before.2.issued :=
    fun v hv => delivered_issued hv ▸ (hlate v hv).issue
  rcases call_spec hm (fun _ _ hd hu => CtimeWorld.Ahead.delivery hu hd) hissue with
    ⟨hrc, -, hd⟩ | ⟨-, v, s, rest, v', hv, hs, hd, hd', -⟩ | ⟨hrc, -, hv⟩
  · exact ⟨hlate _ hd, fun h0 => absurd h0 hrc⟩
  · obtain ⟨hline, htaken⟩ := CtimeWorld.mcLine_takeMc hs
    obtain ⟨j, j', due, hdue, hj⟩ := hv.mc
    rw [hdue] at hline
    obtain ⟨rfl, hrest⟩ := List.cons.inj hline
    have hlate₁ : v.takeMc.Late times :=
      ⟨hv.well.takeMc, by rw [← hrest]; exact List.cons_ne_nil _ _⟩
    have hlate₂ : v'.Late times := delivered_of (fun _ _ hd hu => hu.delivery hd) hlate₁ hd
    have hlate₃ : v'.takeSc.Late times := ⟨hlate₂.well.takeSc, hlate₂.mc⟩
    refine ⟨delivered_of (fun _ _ hd hu => hu.delivery hd) hlate₃ hd', fun _ hown => ?_⟩
    have hmc := hown.2.1
    rw [(delivered_taken hd').2] at hmc
    change v'.mcTaken = _ at hmc
    rw [(delivered_taken hd).2, htaken, Option.some.injEq] at hmc
    omega
  · refine ⟨⟨hv.well, ?_⟩, fun h0 => absurd h0 hrc⟩
    obtain ⟨j, j', due, hdue, -⟩ := hv.mc
    rw [hdue]
    exact List.cons_ne_nil _ _

/-! ## A call after an interrupted one -/

/-- A system in which a process that has to wait is signalled. -/
def ctimeHandler : Handler KCall KAns CtimeWorld
  | .writel r x, u => some ((), if r = .scEventgen ∧ x = triggerBit trigCtime then u.issue else u)
  | .emptyFifo _, u => some (u.mc.empty, u)
  | .getFromFifo q, u =>
    if q = .mc trigCtime then some (u.mc.next.map Stamp.time, u.takeMc)
    else if q = .sc trigCtime then some (u.sc.next.map Stamp.time, u.takeSc)
    else some (none, u)
  | .mutexLockInterruptible _, u => some (false, u)
  | .mutexUnlock _, u => some ((), u)
  | .signalPending, u => some (true, u)
  | _, _ => none

theorem ctimeHandler_serves (c : KCall) (u : CtimeWorld) (x : KAns c) (u' : CtimeWorld)
    (h : ctimeHandler c u = some (x, u')) : ctimeServe times c x u u' := by
  refine ⟨u, .refl, ?_⟩
  cases c with
  | writel r b =>
    obtain ⟨rfl, rfl⟩ := Prod.mk.inj (Option.some.inj h)
    rfl
  | emptyFifo q =>
    obtain ⟨rfl, rfl⟩ := Prod.mk.inj (Option.some.inj h)
    exact ⟨fun _ => rfl, rfl⟩
  | getFromFifo q =>
    simp only [ctimeHandler] at h
    simp only [ctimeAnswer]
    split at h
    · next hq =>
      obtain ⟨rfl, rfl⟩ := Prod.mk.inj (Option.some.inj h)
      exact (if_pos hq).symm ▸ ⟨rfl, rfl⟩
    · next hq =>
      rw [if_neg hq]
      split at h
      · next hq =>
        obtain ⟨rfl, rfl⟩ := Prod.mk.inj (Option.some.inj h)
        exact (if_pos hq).symm ▸ ⟨rfl, rfl⟩
      · next hq =>
        obtain ⟨rfl, rfl⟩ := Prod.mk.inj (Option.some.inj h)
        exact (if_neg hq).symm ▸ rfl
  | mutexLockInterruptible | mutexUnlock | signalPending =>
    obtain ⟨rfl, rfl⟩ := Prod.mk.inj (Option.some.inj h)
    rfl
  | _ => cases h

/-- The stamps of the trigger `k` in a world where both clocks count the triggers. -/
def countTriggers : Clock → ℕ → ℤ := fun _ k => k

/-- After a call that was interrupted, the stamps of its trigger are delivered. -/
def leftOver : CtimeWorld where
  sc := (CtimeWorld.start.sc.putTo ⟨0, 0⟩).2
  mc := (CtimeWorld.start.mc.putTo ⟨0, 0⟩).2
  issued := 1
  scSent := 1
  mcSent := 1
  scTaken := none
  mcTaken := none
  mc_le := le_rfl
  sc_le := le_rfl

theorem interruptedCall_leaves : ((ctimeCall 1 ()).exec ctimeHandler CtimeWorld.start).map
    (fun r => (r.1.1.1, r.2.1)) = some (-eRestartSys, CtimeWorld.start.issue) := rfl

theorem staleCall_returns : ((ctimeCall 1 ()).exec ctimeHandler leftOver).map
    (fun r => (r.1.1.1, r.2.1.mcTaken)) = some (0, some 0) := rfl

/-- The second call succeeds, and returns the time of the first one. -/
theorem exists_stale : ∃ m₁ m₂ w,
    Joint ctimeCall (ctimeServe countTriggers) (Delivery countTriggers) ((), CtimeWorld.start)
      [m₁, m₂] w ∧ m₂.result.1 = 0 ∧ ¬OwnTime countTriggers m₂ := by
  obtain ⟨⟨⟨r₁, _⟩, u₁, tr₁⟩, he₁, hr₁⟩ := Option.map_eq_some_iff.1 interruptedCall_leaves
  obtain ⟨⟨⟨r₂, _⟩, u₂, tr₂⟩, he₂, hr₂⟩ := Option.map_eq_some_iff.1 staleCall_returns
  obtain rfl : u₁ = CtimeWorld.start.issue := (Prod.mk.inj hr₁).2
  have hfirst : Joint ctimeCall (ctimeServe countTriggers) (Delivery countTriggers)
      ((), CtimeWorld.start) _ ((), CtimeWorld.start.issue) :=
    Joint.exec ctimeHandler_serves (Joint.nil _) 1 he₁
  have hsc := Joint.drift hfirst (.sc CtimeWorld.start.issue Nat.one_pos)
  have hmc := Joint.drift hsc (.mc _ Nat.one_pos)
  have hsecond := Joint.exec ctimeHandler_serves hmc 1 he₂
  refine ⟨_, _, _, hsecond, (Prod.mk.inj hr₂).1, fun hown => ?_⟩
  have htaken : u₂.mcTaken = some 1 := hown.2.1
  rw [(Prod.mk.inj hr₂).2] at htaken
  exact absurd htaken (by decide)

/-! ## All calls -/

/-- **A successful call returns the time of its own trigger exactly when** no call before it was
interrupted after having issued its trigger. -/
theorem ctime_own_iff (times : Clock → ℕ → ℤ) {ms : List CtimeMove} {w : Unit × CtimeWorld}
    (h : Joint ctimeCall (ctimeServe times) (Delivery times) ((), CtimeWorld.start) ms w) :
    ∀ ms₁ m ms₂, ms = ms₁ ++ m :: ms₂ → m.result.1 = 0 →
      (OwnTime times m ↔ ∀ m' ∈ ms₁, ¬Interrupted m') := by
  let I (ms : List CtimeMove) (w : Unit × CtimeWorld) : Prop :=
    (∀ m ∈ ms, ¬Interrupted m) ∧ w.2.Idle times ∨ (∃ m ∈ ms, Interrupted m) ∧ w.2.Late times
  have hstart : I [] ((), CtimeWorld.start) := by
    refine .inl ⟨by simp, ⟨?_, ?_⟩, rfl, rfl⟩ <;> exact fun s hs => nomatch hs
  refine (Joint.rule_past (I := I) ?_ ?_ h hstart).1
  · rintro ms m hm (⟨hnone, hidle⟩ | ⟨⟨m', hm', hint⟩, hlate⟩)
    · rcases idle_call hm hidle with ⟨hno, hidle', hown⟩ | ⟨hint, hrc, hlate⟩
      · refine ⟨fun hrc => iff_of_true (hown hrc) hnone, .inl ⟨?_, hidle'⟩⟩
        exact List.forall_mem_append.2 ⟨hnone, List.forall_mem_singleton.2 hno⟩
      · exact ⟨fun h => absurd h hrc, .inr ⟨⟨m, by simp, hint⟩, hlate⟩⟩
    · obtain ⟨hlate', hown⟩ := late_call hm hlate
      refine ⟨fun hrc => iff_of_false (hown hrc) fun hall => hall m' hm' hint, .inr ⟨?_, hlate'⟩⟩
      exact ⟨m', List.mem_append_left _ hm', hint⟩
  · rintro ms _ u u' (⟨hnone, hidle⟩ | ⟨hint, hlate⟩) hd
    · exact .inl ⟨hnone, hidle.delivery hd⟩
    · exact .inr ⟨hint, hlate.delivery hd⟩

theorem ctime_own_second : ∃ ms w,
    Joint ctimeCall (ctimeServe countTriggers) (Delivery countTriggers)
      ((), CtimeWorld.start) ms w ∧
    ∃ m₁ m₂, ms = [m₁, m₂] ∧ m₂.result.1 = 0 ∧
      (OwnTime countTriggers m₂ ↔ ∀ m' ∈ [m₁], ¬Interrupted m') := by
  obtain ⟨m₁, m₂, w, h, hrc, -⟩ := exists_stale
  exact ⟨_, w, h, m₁, m₂, rfl, hrc, ctime_own_iff countTriggers h [m₁] m₂ [] rfl hrc⟩

/-- Not every successful call returns the time of its own trigger. -/
theorem ctime_stale : ¬∀ (times : Clock → ℕ → ℤ) (ms : List CtimeMove) (w : Unit × CtimeWorld),
    Joint ctimeCall (ctimeServe times) (Delivery times) ((), CtimeWorld.start) ms w →
    ∀ m ∈ ms, m.result.1 = 0 → OwnTime times m := by
  intro h
  obtain ⟨m₁, m₂, w, hw, hrc, hown⟩ := exists_stale
  exact hown (h _ _ _ hw m₂ (by simp) hrc)

end LiberaDaq.Kernel
