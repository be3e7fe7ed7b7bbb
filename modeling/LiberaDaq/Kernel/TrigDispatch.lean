import LiberaDaq.Kernel.TrigDevice
import LiberaDaq.Interaction.Path
import LiberaDaq.Memory.BitScan

/-!
# The loops of the two handlers

`libera_sc_handler` and `libera_mc_handler` read the status register of their FIFO until it counts
no entry. For each entry they put the 64-bit time stamp together, from the low bits that the entry
has and the high bits that the driver counts, and come to the triggers with an index and a mask that
are shifted together.

The loops do what the handlers of `TrigDevice` do (`handler_reads`). Where each wrap of the counter
of the FPGA has its entry, the stamp of every entry is the value of the counter, and the triggers of
its vector are dispatched once each, in ascending order (`stamps_and_dispatch`).
-/

namespace LiberaDaq.Kernel

open LiberaDaq.Cspi LiberaDaq.Interaction LiberaDaq.Memory

/-! ## The loops -/

/-- `T_FIFO_SIZE`. -/
def tFifoSize (x : Word) : Word := x &&& 0x1FF

/-- `TRIG_VECTOR`. -/
def trigVector : Word := 0x1FF <<< 22

/-- `TRIG_ZERO`. -/
def trigZero : Word := 0x1 <<< 22

/-- `SELF_INC_TRIGGER`. -/
def selfIncTrigger : Word := 0x200 <<< 22

/-- What a handler did for an entry: the stamp without the offset of the time that was set, and the
mask and the index of each round of the loop over the triggers. -/
structure EntryLog where
  stampRaw : BitVec 64
  dispatched : List (Word × ℕ)
  deriving DecidableEq, Repr

/-- What differs between the handlers: the high bits of the stamp and their increment, the offset
that is added, and what is done for a trigger. -/
structure TrigHalf where
  time : TrigDevice → BitVec 64
  selfInc : TrigDevice → TrigDevice
  offset : TrigDevice → BitVec 64
  trigger : BitVec 64 → BitVec 64 → TrigDevice → ℕ → TrigDevice

namespace TrigHalf

/-- The body of the loop over the entries. The fuel of the loop over the triggers is more than it
needs (`takeEntry_eq`). -/
def takeEntry (h : TrigHalf) (s : TrigDevice) (e : TrigEntry) : Option (TrigDevice × EntryLog) :=
  let s := if e.tl &&& selfIncTrigger ≠ 0 then h.selfInc s else s
  let stampRaw := e.stamp (h.time s)
  let stamp := stampRaw + h.offset s
  let body := fun (x : TrigDevice × List (Word × ℕ)) m i =>
    (h.trigger stamp stampRaw x.1 i, x.2 ++ [(m, i)])
  (scan trigVector body 32 e.tl trigZero 0 (s, [])).map fun x => (x.1, ⟨stampRaw, x.2⟩)

/-- The handler, for what it reads of its FIFO. It is `none` when the FIFO is not empty at the
end. -/
def handler (h : TrigHalf) : TrigDevice → List TrigEntry → Option (TrigDevice × List EntryLog)
  | _, [] => none
  | s, e :: es =>
    if tFifoSize e.tl ≠ 0 then
      (h.takeEntry s e).bind fun x => (h.handler x.1 es).map fun y => (y.1, x.2 :: y.2)
    else some (s, [])

end TrigHalf

/-- The self increment of a stamp. -/
def TrigDevice.addSc (s : TrigDevice) (inc : BitVec 64) : TrigDevice :=
  { s with scTime := s.scTime + inc }

def TrigDevice.addMc (s : TrigDevice) (inc : BitVec 64) : TrigDevice :=
  { s with mcTime := s.mcTime + inc }

theorem TrigDevice.mcTime_addSc (s : TrigDevice) (inc : BitVec 64) :
    (s.addSc inc).mcTime = s.mcTime := rfl

theorem TrigDevice.scTime_addMc (s : TrigDevice) (inc : BitVec 64) :
    (s.addMc inc).scTime = s.scTime := rfl

/-- The half of SC. -/
def scHalf : TrigHalf where
  time s := s.scTime
  selfInc s := s.addSc 0x4000000
  offset s := s.settime.lstOff
  trigger stamp stampRaw s i := s.scTrigger stamp stampRaw i

/-- The half of MC. -/
def mcHalf (g : Global) : TrigHalf where
  time s := s.mcTime
  selfInc s := s.addMc 0x4000000
  offset s := s.settime.lmtOff
  trigger stamp stampRaw s i := s.mcTrigger g stamp stampRaw i

/-- `libera_sc_handler`. -/
def liberaScHandler : TrigDevice → List TrigEntry → Option (TrigDevice × List EntryLog) :=
  scHalf.handler

/-- `libera_mc_handler`. -/
def liberaMcHandler (g : Global) :
    TrigDevice → List TrigEntry → Option (TrigDevice × List EntryLog) :=
  (mcHalf g).handler

/-! ## What the loops compute -/

theorem getLsbD_trigVector {j : ℕ} (hj : j < 32) :
    trigVector.getLsbD j = decide (22 ≤ j ∧ j < 22 + 9) := by
  revert j
  decide

theorem selfInc_iff (e : TrigEntry) : e.tl &&& selfIncTrigger ≠ 0 ↔ e.selfInc = true := by
  have hmask : selfIncTrigger = bitMask 32 31 := by decide
  rw [hmask, and_bitMask_ne_zero_iff (by decide)]
  rfl

theorem bitsFrom_triggers (e : TrigEntry) : bitsFrom 22 9 e.tl 0 = e.triggers := by
  rw [bitsFrom, TrigEntry.triggers, List.range_eq_range']

/-- The mask and the index of each trigger of an entry. -/
def TrigEntry.dispatched (e : TrigEntry) : List (Word × ℕ) :=
  e.triggers.map fun i => (bitMask 32 (22 + i), i)

namespace TrigHalf

variable (h : TrigHalf)

/-- The high bits are those of the entry itself. -/
def atEntry (s : TrigDevice) (e : TrigEntry) : TrigDevice := if e.selfInc then h.selfInc s else s

/-- The device after an entry. -/
def serve (s : TrigDevice) (e : TrigEntry) : TrigDevice :=
  let stampRaw := e.stamp (h.time (h.atEntry s e))
  e.triggers.foldl (h.trigger (stampRaw + h.offset (h.atEntry s e)) stampRaw) (h.atEntry s e)

/-- What the handler did for an entry. -/
def assigned (s : TrigDevice) (e : TrigEntry) : EntryLog :=
  ⟨e.stamp (h.time (h.atEntry s e)), e.dispatched⟩

/-- What the handler did for the entries. -/
def log (s : TrigDevice) : List TrigEntry → List EntryLog
  | [] => []
  | e :: es => h.assigned s e :: log (h.serve s e) es

/-- The rounds of the loop over the triggers, written down. -/
theorem foldl_dispatched (visit : TrigDevice → ℕ → TrigDevice) (is : List ℕ) (s : TrigDevice)
    (calls : List (Word × ℕ)) :
    is.foldl (fun (x : TrigDevice × List (Word × ℕ)) i =>
        (visit x.1 i, x.2 ++ [(bitMask 32 (22 + i), i)])) (s, calls) =
      (is.foldl visit s, calls ++ is.map fun i => (bitMask 32 (22 + i), i)) := by
  induction is generalizing s calls with
  | nil => simp
  | cons i is ih => rw [List.foldl_cons, ih, List.foldl_cons, List.map_cons, List.append_assoc]; rfl

/-- **An entry.** The loop over the triggers ends, and each trigger of the entry had one round. -/
theorem takeEntry_eq (s : TrigDevice) (e : TrigEntry) :
    h.takeEntry s e = some (h.serve s e, h.assigned s e) := by
  have hat : (if e.tl &&& selfIncTrigger ≠ 0 then h.selfInc s else s) = h.atEntry s e := by
    rw [atEntry]
    by_cases hinc : e.selfInc = true
    · rw [if_pos ((selfInc_iff e).2 hinc), if_pos hinc]
    · rw [if_neg (mt (selfInc_iff e).1 hinc), if_neg hinc]
  have hzero : trigZero = bitMask 32 22 := by decide
  rw [takeEntry, hat, hzero,
    scan_eq (n := 9) (by decide) (fun j hj => getLsbD_trigVector hj) (by decide),
    bitsFrom_triggers,
    foldl_dispatched]
  rfl

/-- **The handler.** It ends when the FIFO is empty, and has served the entries in order. -/
theorem handler_reads {es : List TrigEntry} {idle : TrigEntry}
    (hcounted : ∀ e ∈ es, tFifoSize e.tl ≠ 0) (hidle : tFifoSize idle.tl = 0) (s : TrigDevice) :
    h.handler s (es ++ [idle]) = some (es.foldl h.serve s, h.log s es) := by
  induction es generalizing s with
  | nil =>
    have hempty : ¬tFifoSize idle.tl ≠ 0 := not_not.2 hidle
    rw [List.nil_append, handler, if_neg hempty]
    rfl
  | cons e es ih =>
    have hfirst := hcounted e List.mem_cons_self
    rw [List.cons_append, handler, if_pos hfirst, takeEntry_eq, Option.bind_some,
      ih (fun e' he' => hcounted e' (List.mem_cons_of_mem e he'))]
    rfl

end TrigHalf

theorem scHalf_serve : scHalf.serve = TrigDevice.scEntry := rfl

theorem mcHalf_serve (g : Global) : (mcHalf g).serve = TrigDevice.mcEntry g := rfl

/-! ## The counter of the FPGA -/

/-- An entry, with the value that the counter of the FPGA has when it is made, of which the entry
has the low 26 bits. -/
structure TimedEntry where
  entry : TrigEntry
  count : ℕ
  low : (entry.th &&& 0x3FFFFFF).toNat = count % 2 ^ 26

/-- The next entry of the FIFO. The counter runs up, and an entry has `SELF_INC_TRIGGER` if and only
if the low bits wrapped since the one before, once. -/
def Follows (count : ℕ) (e : TimedEntry) : Prop :=
  count ≤ e.count ∧ e.count / 2 ^ 26 = count / 2 ^ 26 + e.entry.selfInc.toNat

/-- The value of the counter, counted from the last wrap before `base`. -/
def sinceStart (base count : ℕ) : ℕ := count - base / 2 ^ 26 * 2 ^ 26

/-- The high bits of the value of the counter, as the driver keeps them. -/
def highBits (base count : ℕ) : BitVec 64 :=
  BitVec.ofNat 64 ((count / 2 ^ 26 - base / 2 ^ 26) * 2 ^ 26)

variable {base count : ℕ}

theorem highBits_self : highBits base base = 0 := by
  rw [highBits, Nat.sub_self, Nat.zero_mul]
  rfl

theorem highBits_next {e : TimedEntry} (hbase : base ≤ count) (h : Follows count e) :
    highBits base e.count =
      if e.entry.selfInc = true then highBits base count + 0x4000000 else highBits base count := by
  obtain ⟨hle, hhigh⟩ := h
  have hdiv : base / 2 ^ 26 ≤ count / 2 ^ 26 := Nat.div_le_div_right hbase
  rw [highBits, highBits, hhigh]
  cases e.entry.selfInc with
  | false => rfl
  | true =>
    have hsum : (count / 2 ^ 26 + Bool.toNat true - base / 2 ^ 26) * 2 ^ 26 =
        (count / 2 ^ 26 - base / 2 ^ 26) * 2 ^ 26 + 0x4000000 := by
      simp only [Bool.toNat_true]
      omega
    rw [hsum, BitVec.ofNat_add, if_pos rfl]
    rfl

theorem highBits_eq_shl :
    highBits base count = BitVec.ofNat 64 (count / 2 ^ 26 - base / 2 ^ 26) <<< 26 := by
  apply BitVec.eq_of_toNat_eq
  rw [highBits, BitVec.toNat_shiftLeft, BitVec.toNat_ofNat, BitVec.toNat_ofNat, Nat.shiftLeft_eq,
    Nat.mod_mul_mod]

/-- The low bits of the high part are clear, and the mask takes nothing away. -/
theorem highBits_and_mask : highBits base count &&& 0xFFFFFFFFFC000000 = highBits base count := by
  have hmask : (0xFFFFFFFFFC000000 : BitVec 64) = BitVec.allOnes 64 <<< 26 := by decide
  rw [hmask, highBits_eq_shl, ← BitVec.shiftLeft_and_distrib, BitVec.and_allOnes]

theorem low_and_highBits {low : ℕ} (hlow : low < 2 ^ 26) :
    BitVec.ofNat 64 low &&& highBits base count = 0 := by
  rw [highBits_eq_shl]
  ext j hj
  rw [BitVec.getElem_and, BitVec.getElem_shiftLeft, ← BitVec.getLsbD_eq_getElem,
    BitVec.getLsbD_ofNat]
  rcases Nat.lt_or_ge j 26 with hlt | hge
  · simp [hlt]
  · have hclear : low.testBit j = false :=
      Nat.testBit_lt_two_pow (hlow.trans_le (Nat.pow_le_pow_right (by decide) hge))
    simp [hclear]

/-- **The stamp of an entry.** The low bits of the entry and the high bits that the driver counts
are the value of the counter. -/
theorem stamp_highBits {e : TimedEntry} (hbase : base ≤ e.count) :
    e.entry.stamp (highBits base e.count) = BitVec.ofNat 64 (sinceStart base e.count) := by
  have hlow : (e.entry.th &&& 0x3FFFFFF).setWidth 64 = BitVec.ofNat 64 (e.count % 2 ^ 26) := by
    apply BitVec.eq_of_toNat_eq
    rw [BitVec.toNat_setWidth, e.low, BitVec.toNat_ofNat]
  have hsum : e.count % 2 ^ 26 + (e.count / 2 ^ 26 - base / 2 ^ 26) * 2 ^ 26 =
      sinceStart base e.count := by
    have hdiv : base / 2 ^ 26 ≤ e.count / 2 ^ 26 := Nat.div_le_div_right hbase
    rw [sinceStart]
    omega
  have hmod : e.count % 2 ^ 26 < 2 ^ 26 := Nat.mod_lt _ (by decide)
  rw [TrigEntry.stamp, highBits_and_mask, hlow,
    ← BitVec.add_eq_or_of_and_eq_zero _ _ (low_and_highBits hmod), highBits, ← BitVec.ofNat_add,
      hsum]

/-! ## The times that the handlers keep -/

section Times

variable {s : TrigDevice} {stamp stampRaw time : BitVec 64} {i : ℕ}

/-- The high bits of both stamps are the same. -/
structure SameTimes (s s' : TrigDevice) : Prop where
  sc : s'.scTime = s.scTime
  mc : s'.mcTime = s.mcTime

theorem sameTimes_scTrigger : SameTimes s (s.scTrigger stamp stampRaw i) := by
  unfold TrigDevice.scTrigger TrigDevice.scTrigSpecific
  dsimp only
  split_ifs <;> exact ⟨rfl, rfl⟩

theorem sameTimes_setTime (g : Global) : SameTimes s (s.setTime g) := by
  unfold TrigDevice.setTime
  dsimp only
  split_ifs <;> exact ⟨rfl, rfl⟩

theorem sameTimes_mcTrigger (g : Global) : SameTimes s (s.mcTrigger g stamp stampRaw i) := by
  unfold TrigDevice.mcTrigger TrigDevice.mcTrigSpecific TrigDevice.postMortem
  dsimp only
  split_ifs
  · have hset := sameTimes_setTime g (s := (s.countMc i).putLMT i stampRaw)
    exact ⟨hset.sc, hset.mc⟩
  all_goals exact ⟨rfl, rfl⟩

end Times

namespace TrigHalf

/-- The time of a half is counted by its self increments only. -/
structure Clocked (h : TrigHalf) : Prop where
  selfInc : ∀ s, h.time (h.selfInc s) = h.time s + 0x4000000
  trigger : ∀ stamp stampRaw s i, h.time (h.trigger stamp stampRaw s i) = h.time s

theorem clocked_scHalf : scHalf.Clocked :=
  ⟨fun _ => rfl, fun _ _ _ _ => sameTimes_scTrigger.sc⟩

theorem clocked_mcHalf (g : Global) : (mcHalf g).Clocked :=
  ⟨fun _ => rfl, fun _ _ _ _ => (sameTimes_mcTrigger g).mc⟩

variable {h : TrigHalf} {s : TrigDevice}

/-- A value that no trigger changes. -/
theorem foldl_keeps {α β : Type} {f : TrigDevice → β} {visit : TrigDevice → α → TrigDevice}
    (hvisit : ∀ s a, f (visit s a) = f s) (as : List α) : f (as.foldl visit s) = f s := by
  induction as generalizing s with
  | nil => rfl
  | cons a as ih => rw [List.foldl_cons, ih, hvisit]

/-- A value that a half does not change. -/
theorem serve_keeps {β : Type} {f : TrigDevice → β} (hinc : ∀ s, f (h.selfInc s) = f s)
    (htrigger : ∀ stamp stampRaw s i, f (h.trigger stamp stampRaw s i) = f s) (e : TrigEntry) :
    f (h.serve s e) = f s := by
  rw [TrigHalf.serve, foldl_keeps (htrigger _ _), TrigHalf.atEntry]
  split_ifs
  · exact hinc s
  · rfl

/-- The high bits after an entry, which are also those of its stamp. -/
theorem Clocked.atEntry (hc : h.Clocked) {base count : ℕ} (hs : h.time s = highBits base count)
    (hbase : base ≤ count) {e : TimedEntry} (he : Follows count e) :
    h.time (h.atEntry s e.entry) = highBits base e.count := by
  rw [highBits_next hbase he, TrigHalf.atEntry]
  by_cases hinc : e.entry.selfInc = true
  · rw [if_pos hinc, if_pos hinc, hc.selfInc, hs]
  · rw [if_neg hinc, if_neg hinc, hs]

end TrigHalf

theorem mcTime_scHandler (s : TrigDevice) (es : List TrigEntry) :
    (s.scHandler es).mcTime = s.mcTime := by
  have hkeeps : ∀ (s : TrigDevice) e, (scHalf.serve s e).mcTime = s.mcTime := fun s e =>
    TrigHalf.serve_keeps (h := scHalf) (f := TrigDevice.mcTime) (fun s => s.mcTime_addSc _)
      (fun _ _ _ _ => sameTimes_scTrigger.mc) e
  rw [TrigDevice.scHandler, ← scHalf_serve]
  exact TrigHalf.foldl_keeps (f := TrigDevice.mcTime) hkeeps es

theorem scTime_mcHandler (g : Global) (s : TrigDevice) (es : List TrigEntry) :
    (s.mcHandler g es).scTime = s.scTime := by
  have hkeeps : ∀ (s : TrigDevice) e, ((mcHalf g).serve s e).scTime = s.scTime := fun s e =>
    TrigHalf.serve_keeps (h := mcHalf g) (f := TrigDevice.scTime) (fun s => s.scTime_addMc _)
      (fun _ _ _ _ => (sameTimes_mcTrigger g).sc) e
  rw [TrigDevice.mcHandler, ← mcHalf_serve]
  exact TrigHalf.foldl_keeps (f := TrigDevice.scTime) hkeeps es

/-- What an entry must have: its stamp is the value of the counter, and its triggers are those of
its vector. -/
def TimedEntry.assigned (base : ℕ) (e : TimedEntry) : EntryLog :=
  ⟨BitVec.ofNat 64 (sinceStart base e.count), e.entry.dispatched⟩

/-- The value of the counter at the last of the entries. -/
def lastCount (count : ℕ) (es : List TimedEntry) : ℕ := es.foldl (fun _ e => e.count) count

/-- The entries follow one another, with one self increment for each wrap. -/
def Timeline (count : ℕ) (es : List TimedEntry) : Prop :=
  Along (fun _ e => e.count) Follows count es

theorem Timeline.le_lastCount {es : List TimedEntry} (h : Timeline count es) :
    count ≤ lastCount count es := by
  induction es generalizing count with
  | nil => exact le_refl count
  | cons e es ih => exact h.1.1.trans (ih h.2)

theorem timeline_append {es es' : List TimedEntry} :
    Timeline count (es ++ es') ↔ Timeline count es ∧ Timeline (lastCount count es) es' :=
  along_append

/-- **The entries of a handler.** Each has the value of the counter as its stamp. -/
theorem TrigHalf.Clocked.log {h : TrigHalf} (hc : h.Clocked) {s : TrigDevice} {es : List TimedEntry}
    (hs : h.time s = highBits base count) (hbase : base ≤ count) (hes : Timeline count es) :
    h.log s (es.map (·.entry)) = es.map (·.assigned base) ∧
      h.time ((es.map (·.entry)).foldl h.serve s) = highBits base (lastCount count es) := by
  induction es generalizing s count with
  | nil => exact ⟨rfl, hs⟩
  | cons e es ih =>
    obtain ⟨hfollows, hrest⟩ := hes
    have hle : base ≤ e.count := hbase.trans hfollows.1
    have htime := hc.atEntry hs hbase hfollows
    have hserved : h.time (h.serve s e.entry) = highBits base e.count := by
      rw [TrigHalf.serve, TrigHalf.foldl_keeps (hc.trigger _ _), htime]
    obtain ⟨hlog, hlast⟩ := ih hserved hle hrest
    refine ⟨?_, hlast⟩
    rw [List.map_cons, TrigHalf.log, hlog, TrigHalf.assigned, htime, stamp_highBits hle]
    rfl

/-! ## Runs -/

/-- What a handler finds in its FIFO: entries, each of which the status register counts, and at last
that there is none. -/
structure Drain where
  found : List TimedEntry
  idle : TrigEntry
  counted : ∀ e ∈ found.map (·.entry), tFifoSize e.tl ≠ 0
  idle_empty : tFifoSize idle.tl = 0

namespace Drain

def entries (d : Drain) : List TrigEntry := d.found.map (·.entry)

/-- What the handler reads. -/
def reads (d : Drain) : List TrigEntry := d.entries ++ [d.idle]

end Drain

theorem TrigHalf.handler_drain (h : TrigHalf) (s : TrigDevice) (d : Drain) :
    h.handler s d.reads = some (d.entries.foldl h.serve s, h.log s d.entries) :=
  h.handler_reads d.counted d.idle_empty s

/-- The requests of processes, among the steps at the device. -/
def TrigAction.isRequest : TrigAction → Bool
  | .interrupt _ => false
  | _ => true

/-- The steps at the device, with the counter of the FPGA. -/
inductive TimedAction
  | interrupt (rounds : List (Drain × Drain))
  | request (a : TrigAction) (ha : a.isRequest = true)

namespace TimedAction

/-- The step without the counter. -/
def action : TimedAction → TrigAction
  | .interrupt rounds => .interrupt (rounds.map fun r => (r.1.entries, r.2.entries))
  | .request a _ => a

/-- The entries of the SC FIFO. -/
def sc : TimedAction → List TimedEntry
  | .interrupt rounds => rounds.flatMap (·.1.found)
  | .request _ _ => []

/-- The entries of the MC FIFO. -/
def mc : TimedAction → List TimedEntry
  | .interrupt rounds => rounds.flatMap (·.2.found)
  | .request _ _ => []

end TimedAction

/-- The device, and what the handlers did for the entries so far. -/
structure TrigLog where
  device : TrigDevice
  sc : List EntryLog
  mc : List EntryLog

namespace TrigLog

/-- A round of `libera_interrupt`. -/
def round (g : Global) (x : TrigLog) (r : Drain × Drain) : Option TrigLog :=
  (liberaScHandler x.device r.1.reads).bind fun sc =>
    (liberaMcHandler g sc.1 r.2.reads).map fun mc => ⟨mc.1, x.sc ++ sc.2, x.mc ++ mc.2⟩

/-- One step at the device. -/
def step (g : Global) (x : TrigLog) : TimedAction → Option TrigLog
  | .interrupt rounds => rounds.foldlM (round g) x
  | .request a _ => some { x with device := x.device.step g a }

/-- The device after a number of steps. -/
def run (g : Global) (x : TrigLog) (actions : List TimedAction) : Option TrigLog :=
  actions.foldlM (step g) x

variable {g : Global} {x : TrigLog} {baseSc baseMc countSc countMc : ℕ}

/-- The high bits of both stamps belong to these values of the counters, which are not before the
start. -/
structure Clocks (s : TrigDevice) (baseSc countSc baseMc countMc : ℕ) : Prop where
  sc : s.scTime = highBits baseSc countSc
  mc : s.mcTime = highBits baseMc countMc
  sc_le : baseSc ≤ countSc
  mc_le : baseMc ≤ countMc

/-- What the handlers have done after they served the entries. -/
def serve (x : TrigLog) (baseSc baseMc : ℕ) (s : TrigDevice) (sc mc : List TimedEntry) : TrigLog :=
  ⟨s, x.sc ++ sc.map (·.assigned baseSc), x.mc ++ mc.map (·.assigned baseMc)⟩

theorem round_eq (hx : Clocks x.device baseSc countSc baseMc countMc) {r : Drain × Drain}
    (hsc : Timeline countSc r.1.found) (hmc : Timeline countMc r.2.found) :
    x.round g r = some (x.serve baseSc baseMc (x.device.round g (r.1.entries, r.2.entries))
      r.1.found r.2.found) ∧
    Clocks (x.device.round g (r.1.entries, r.2.entries)) baseSc (lastCount countSc r.1.found)
      baseMc (lastCount countMc r.2.found) := by
  obtain ⟨hscLog, hscTime⟩ := TrigHalf.clocked_scHalf.log hx.sc hx.sc_le hsc
  obtain ⟨hmcLog, hmcTime⟩ := (TrigHalf.clocked_mcHalf g).log
    (s := x.device.scHandler r.1.entries) ((mcTime_scHandler _ _).trans hx.mc) hx.mc_le hmc
  constructor
  · have hsc' : liberaScHandler x.device r.1.reads =
        some (x.device.scHandler r.1.entries, r.1.found.map (·.assigned baseSc)) := by
      rw [liberaScHandler, TrigHalf.handler_drain]
      exact congrArg (fun log => some (x.device.scHandler r.1.entries, log)) hscLog
    have hmc' : liberaMcHandler g (x.device.scHandler r.1.entries) r.2.reads =
        some (x.device.round g (r.1.entries, r.2.entries), r.2.found.map (·.assigned baseMc)) := by
      rw [liberaMcHandler, TrigHalf.handler_drain]
      exact congrArg (fun log => some (x.device.round g (r.1.entries, r.2.entries), log)) hmcLog
    rw [round, hsc', Option.bind_some, hmc']
    rfl
  · exact ⟨(scTime_mcHandler _ _ _).trans hscTime, hmcTime, hx.sc_le.trans hsc.le_lastCount,
      hx.mc_le.trans hmc.le_lastCount⟩

@[simp] theorem lastCount_append (count : ℕ) (es es' : List TimedEntry) :
    lastCount count (es ++ es') = lastCount (lastCount count es) es' :=
  List.foldl_append

theorem serve_append (s s' : TrigDevice) (sc sc' mc mc' : List TimedEntry) :
    (x.serve baseSc baseMc s sc mc).serve baseSc baseMc s' sc' mc' =
      x.serve baseSc baseMc s' (sc ++ sc') (mc ++ mc') := by
  simp only [serve, List.map_append, List.append_assoc]

theorem serve_nil : x.serve baseSc baseMc x.device [] [] = x := by
  simp only [serve, List.map_nil, List.append_nil]

/-- An interrupt. -/
theorem interrupt_eq (hx : Clocks x.device baseSc countSc baseMc countMc)
    {rounds : List (Drain × Drain)} (hsc : Timeline countSc (rounds.flatMap (·.1.found)))
    (hmc : Timeline countMc (rounds.flatMap (·.2.found))) :
    let s := x.device.step g (TimedAction.interrupt rounds).action
    x.step g (.interrupt rounds) = some (x.serve baseSc baseMc s (rounds.flatMap (·.1.found))
        (rounds.flatMap (·.2.found))) ∧
      Clocks s baseSc (lastCount countSc (rounds.flatMap (·.1.found)))
        baseMc (lastCount countMc (rounds.flatMap (·.2.found))) := by
  induction rounds generalizing x countSc countMc with
  | nil => exact ⟨congrArg some serve_nil.symm, hx⟩
  | cons r rounds ih =>
    rw [List.flatMap_cons, timeline_append] at hsc hmc
    obtain ⟨hround, hclocks⟩ := round_eq (g := g) hx hsc.1 hmc.1
    have hrest := ih (x := x.serve baseSc baseMc (x.device.round g (r.1.entries, r.2.entries))
      r.1.found r.2.found) hclocks hsc.2 hmc.2
    rw [List.flatMap_cons, List.flatMap_cons, lastCount_append, lastCount_append]
    intro s
    refine ⟨?_, hrest.2⟩
    rw [step, List.foldlM_cons, hround,
      ← serve_append (x.device.round g (r.1.entries, r.2.entries)) s]
    exact hrest.1

/-- A request does not change the clocks. -/
theorem clocks_request {s : TrigDevice} (hs : Clocks s baseSc countSc baseMc countMc)
    {a : TrigAction} (ha : a.isRequest = true) :
    Clocks (s.step g a) baseSc countSc baseMc countMc := by
  cases a with
  | interrupt => cases ha
  | setCfg => exact ⟨hs.sc, hs.mc, hs.sc_le, hs.mc_le⟩
  | setSt => exact ⟨hs.sc, hs.mc, hs.sc_le, hs.mc_le⟩
  | setMt => exact ⟨hs.sc, hs.mc, hs.sc_le, hs.mc_le⟩
  | setScphi => exact ⟨hs.sc, hs.mc, hs.sc_le, hs.mc_le⟩
  | setMcphi => exact ⟨hs.sc, hs.mc, hs.sc_le, hs.mc_le⟩

/-- Any steps, from a state with its clocks. -/
theorem run_eq (hx : Clocks x.device baseSc countSc baseMc countMc) {actions : List TimedAction}
    (hsc : Timeline countSc (actions.flatMap (·.sc)))
    (hmc : Timeline countMc (actions.flatMap (·.mc))) :
    x.run g actions = some (x.serve baseSc baseMc (x.device.run g (actions.map (·.action)))
      (actions.flatMap (·.sc)) (actions.flatMap (·.mc))) := by
  induction actions generalizing x countSc countMc with
  | nil => exact congrArg some serve_nil.symm
  | cons a actions ih =>
    rw [List.flatMap_cons, timeline_append] at hsc hmc
    rw [run, List.foldlM_cons, List.flatMap_cons, List.flatMap_cons]
    cases a with
    | interrupt rounds =>
      obtain ⟨hstep, hclocks⟩ := interrupt_eq (g := g) hx hsc.1 hmc.1
      rw [hstep, ← serve_append]
      exact ih hclocks hsc.2 hmc.2
    | request a ha => exact ih (clocks_request hx ha) hsc.2 hmc.2

/-- **The time stamps and the triggers.** In every run from the start of the driver in which each
wrap of the two counters has its entry, the loops of the handlers end and do what the handlers of
the device do; each entry has the value of the counter since the start as its stamp, and each
trigger that is set in its vector was dispatched once, in ascending order, with its mask and its
index. -/
theorem stamps_and_dispatch (g : Global) (cfg : CfgDevice) (baseSc baseMc : ℕ)
    (actions : List TimedAction) (hsc : Timeline baseSc (actions.flatMap (·.sc)))
    (hmc : Timeline baseMc (actions.flatMap (·.mc))) :
    run g ⟨.start cfg, [], []⟩ actions =
      some ⟨(TrigDevice.start cfg).run g (actions.map (·.action)),
        (actions.flatMap (·.sc)).map (·.assigned baseSc),
        (actions.flatMap (·.mc)).map (·.assigned baseMc)⟩ := by
  have hclocks : Clocks (TrigDevice.start cfg) baseSc baseSc baseMc baseMc :=
    ⟨highBits_self.symm, highBits_self.symm, le_refl _, le_refl _⟩
  rw [run_eq (x := ⟨.start cfg, [], []⟩) hclocks hsc hmc]
  rfl

/-- A TRIGGER and, after the counter wrapped, a self increment with a POST_MORTEM. -/
def wrapDrain : Drain where
  found := [⟨⟨0x40000002, 0x3FFFFFE⟩, 0x3FFFFFE, by decide⟩,
    ⟨⟨0xA0000001, 3⟩, 0x4000003, by decide⟩]
  idle := ⟨0, 0⟩
  counted := by decide
  idle_empty := by decide

/-- The SC FIFO of a counter that wraps. -/
theorem stamps_and_dispatch_wrap :
    let g : Global := ⟨0x01000000, 500, 100, 3, 1000, 1000, 1000⟩
    let cfg : CfgDevice := .initSpecific g fun _ => 0
    let actions : List TimedAction := [.interrupt [(wrapDrain, ⟨[], ⟨0, 0⟩, by decide, by decide⟩)]]
    run g ⟨.start cfg, [], []⟩ actions =
      some ⟨(TrigDevice.start cfg).run g (actions.map (·.action)),
        (actions.flatMap (·.sc)).map (·.assigned 0x3FFFFFC),
        (actions.flatMap (·.mc)).map (·.assigned 0)⟩ :=
  stamps_and_dispatch _ _ _ _ _
    (by refine ⟨⟨by decide, by decide⟩, ⟨by decide, by decide⟩, trivial⟩)
    trivial

end TrigLog

end LiberaDaq.Kernel
