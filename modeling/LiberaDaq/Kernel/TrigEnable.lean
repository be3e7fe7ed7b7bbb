import LiberaDaq.Interaction.Path
import LiberaDaq.Kernel.FileAccess

/-!
# The triggers that are enabled

The driver enables some triggers for itself, and each file on the event device may enable others,
which are then its own. When a file that was open only to read is closed, its triggers are disabled
again; those of a file that was also open for writing, or for neither, stay enabled for good
(`enabled_iff`).
-/

namespace LiberaDaq.Kernel

open LiberaDaq.Cspi LiberaDaq.Interaction

/-! ## The books -/

/-- The event device with the books of what was granted: the triggers that each file asked for since
it was opened and was not refused. -/
structure TrigBooks where
  site : EventSite
  granted : Filp → TrigClock → Word

namespace TrigBooks

/-- The triggers granted to a file that is opened are none, and a request that returns `0` is
granted. -/
def enter (granted : Filp → TrigClock → Word) (ret : ℤ) : EventMove → Filp → TrigClock → Word
  | .openFile _ file _ _ => if ret = 0 then Function.update granted file fun _ => 0 else granted
  | .close _ => granted
  | .enableTrig c file _ arg =>
    if ret = 0 then
      Function.update granted file (Function.update (granted file) c (granted file c ||| arg))
    else granted

/-- The state after a move. -/
def step (b : TrigBooks) (m : EventMove) : TrigBooks :=
  ⟨b.site.step m, enter b.granted (b.site.answer m).1 m⟩

/-- A move that the kernel can make. -/
def Possible (b : TrigBooks) (m : EventMove) : Prop := b.site.Possible m

/-- The driver was just loaded. -/
def loaded (mask : TrigClock → Word) : TrigBooks := ⟨.loaded mask, fun _ _ => 0⟩

/-! ## The property -/

/-- A file that is open has the bit `i` of the vector of a clock. -/
def Share (b : TrigBooks) (f : Filp) (c : TrigClock) (i : ℕ) : Prop :=
  b.site.files f ≠ none ∧ (b.granted f c).getLsbD i = true

/-- The triggers that are enabled follow the open files. -/
structure Follows (b : TrigBooks) : Prop where
  /-- The driver's own triggers, and those of the open files. -/
  union : ∀ c i, (b.site.dev.trigVec c).getLsbD i = true ↔
    EventDev.baseTriggers.getLsbD i = true ∨ ∃ f, b.Share f c i
  mask : ∀ c, b.site.dev.triggerMask c = b.site.dev.trigVec c ||| selfInc
  /-- Once all files are closed only the driver's own are left. -/
  closed : (∀ f, b.site.files f = none) → ∀ c, b.site.dev.trigVec c = EventDev.baseTriggers
  /-- Then every other trigger can be enabled anew. -/
  anew : (∀ f, b.site.files f = none) → ∀ c file arg, arg ≠ 0 → arg &&& trigNoneMask = 0 →
    arg &&& EventDev.baseTriggers = 0 → (b.site.enableTrig c file true arg).1 = 0

/-- A file that is closed was open only to read, or no triggers were granted to it. -/
def Clean (b : TrigBooks) : EventMove → Prop
  | .close file => ∀ mode ∈ b.site.files file, ¬(mode.read = true ∧ mode.write = false) →
    ∀ c, b.granted file c = 0
  | _ => True

theorem and_eq_zero_iff {x y : Word} :
    x &&& y = 0 ↔ ∀ i, x.getLsbD i = true → y.getLsbD i = false := by
  constructor
  · intro h i hx
    have hbit := congrArg (fun z : Word => z.getLsbD i) h
    simpa [hx] using hbit
  · intro h
    refine BitVec.eq_of_getLsbD_eq fun i _ => ?_
    rw [BitVec.getLsbD_and]
    cases hx : x.getLsbD i with
    | false => exact BitVec.getLsbD_zero.symm
    | true =>
      rw [h i hx]
      exact BitVec.getLsbD_zero.symm

end TrigBooks

/-! ## What a move does to the triggers -/

namespace EventSite

variable {s : EventSite} {dev : Bool} {file f : Filp} {mode : FMode} {mem : Option ℕ} {p : ℕ}
  {c : TrigClock} {ok : Bool} {arg : Word}

/-- The memory of the open files is allocated, each file with its own. -/
structure Stored (s : EventSite) : Prop where
  held : ∀ f, s.files f ≠ none → s.heap (s.version f) ≠ none
  apart : ∀ f f', s.files f ≠ none → s.files f' ≠ none → s.version f = s.version f' → f = f'

/-- `open` leaves the memory alone, or takes a block for the file; it never touches the triggers. -/
theorem openFile_memory (s : EventSite) (dev : Bool) (file : Filp) (mode : FMode)
    (mem : Option ℕ) :
    (s.openFile dev file mode mem).2.dev.trigVec = s.dev.trigVec ∧
    (s.openFile dev file mode mem).2.dev.triggerMask = s.dev.triggerMask ∧
    (((s.openFile dev file mode mem).1 ≠ 0 ∧
        (s.openFile dev file mode mem).2.heap = s.heap ∧
        (s.openFile dev file mode mem).2.version = s.version) ∨
      ∃ p, mem = some p ∧
        (s.openFile dev file mode mem).2.heap = Function.update s.heap p (some ⟨fun _ => 0⟩) ∧
        (s.openFile dev file mode mem).2.version = Function.update s.version file p) := by
  unfold openFile
  cases dev with
  | false => exact ⟨rfl, rfl, .inl ⟨show -eNoDev ≠ 0 by decide, rfl, rfl⟩⟩
  | true =>
    cases mem with
    | none => exact ⟨rfl, rfl, .inl ⟨show -eNoMem ≠ 0 by decide, rfl, rfl⟩⟩
    | some p =>
      cases mode.write with
      | false => exact ⟨rfl, rfl, .inr ⟨p, rfl, rfl, rfl⟩⟩
      | true => cases hm : s.dev.masterFilp <;> simp [hm, EventDev.flushEvents]

/-- `own` depends on the memory alone. -/
theorem own_congr {s s' : EventSite} (h : s'.heap (s'.version f) = s.heap (s.version f)) :
    s'.own f c = s.own f c := by
  unfold own
  rw [h]

/-- `open` spares the memory of the files that are open. -/
theorem openFile_spares (h : s.Stored) (hp : s.Possible (.openFile dev file mode mem))
    (hf : s.files f ≠ none) : (∀ p ∈ mem, s.version f ≠ p) ∧
      (s.openFile dev file mode mem).2.version f = s.version f ∧
      (s.openFile dev file mode mem).2.heap (s.version f) = s.heap (s.version f) := by
  have hne : f ≠ file := by
    rintro rfl
    exact hf hp.1
  have hblock : ∀ p ∈ mem, s.version f ≠ p := fun p hmem heq => h.held f hf (heq ▸ hp.2 p hmem)
  obtain ⟨-, -, ⟨-, hheap, hversion⟩ | ⟨p, hmem, hheap, hversion⟩⟩ :=
    s.openFile_memory dev file mode mem
  · exact ⟨hblock, by rw [hversion], by rw [hheap]⟩
  · rw [hversion, hheap, Function.update_of_ne hne, Function.update_of_ne (hblock p hmem)]
    exact ⟨hblock, rfl, rfl⟩

/-- A file that was opened has memory of its own. -/
theorem openFile_block (h : (s.openFile dev file mode mem).1 = 0) :
    ∃ p ∈ mem, (s.openFile dev file mode mem).2.version file = p ∧
      (s.openFile dev file mode mem).2.heap p = some ⟨fun _ => 0⟩ := by
  obtain ⟨-, -, ⟨hret, -, -⟩ | ⟨p, hmem, hheap, hversion⟩⟩ := s.openFile_memory dev file mode mem
  · exact absurd h hret
  · rw [hversion, hheap, Function.update_self]
    exact ⟨p, hmem, rfl, Function.update_self ..⟩

theorem stored_openFile (h : s.Stored) (hp : s.Possible (.openFile dev file mode mem)) :
    (s.step (.openFile dev file mode mem)).Stored := by
  have hspares := fun f hf => openFile_spares (f := f) h hp hf
  change Stored { (s.openFile dev file mode mem).2 with
    files := keepFile s.files file mode (s.openFile dev file mode mem).1 }
  by_cases hret : (s.openFile dev file mode mem).1 = 0
  · obtain ⟨p, hmem, hversion, hheap⟩ := openFile_block hret
    have hopen : ∀ f, keepFile s.files file mode (s.openFile dev file mode mem).1 f ≠ none →
        f = file ∨ s.files f ≠ none := by
      intro f hf
      rw [keepFile, if_pos hret, Function.update_apply] at hf
      split at hf
      · next heq => exact .inl heq
      · exact .inr hf
    refine ⟨fun f hf => ?_, fun f f' hf hf' heq => ?_⟩
    · obtain rfl | hf := hopen f hf
      · simp [hversion, hheap]
      · obtain ⟨-, hv, hh⟩ := hspares f hf
        dsimp only
        rw [hv, hh]
        exact h.held f hf
    · obtain rfl | hf := hopen f hf
      · obtain rfl | hf' := hopen f' hf'
        · rfl
        · obtain ⟨hne, hv, -⟩ := hspares f' hf'
          exact absurd (hv.symm.trans (heq.symm.trans hversion)) (hne p hmem)
      · obtain ⟨hne, hv, -⟩ := hspares f hf
        obtain rfl | hf' := hopen f' hf'
        · exact absurd (hv.symm.trans (heq.trans hversion)) (hne p hmem)
        · exact h.apart f f' hf hf' (hv.symm.trans (heq.trans (hspares f' hf').2.1))
  · rw [keepFile, if_neg hret]
    refine ⟨fun f hf => ?_, fun f f' hf hf' heq => ?_⟩
    · obtain ⟨-, hv, hh⟩ := hspares f hf
      dsimp only
      rw [hv, hh]
      exact h.held f hf
    · exact h.apart f f' hf hf' ((hspares f hf).2.1.symm.trans (heq.trans (hspares f' hf').2.1))

/-- Closing a file spares the memory of the others. -/
theorem releaseFile_spares (mode : FMode) (h : s.Stored) (hfile : s.files file ≠ none)
    (hf : s.files f ≠ none)
    (hne : f ≠ file) : (s.releaseFile file mode).version f = s.version f ∧
      (s.releaseFile file mode).heap (s.version f) = s.heap (s.version f) := by
  have hblock : s.version f ≠ s.version file := fun heq => hne (h.apart f file hf hfile heq)
  exact ⟨Function.update_of_ne hne _ _, Function.update_of_ne hblock _ _⟩

theorem stored_close (h : s.Stored) (hfile : s.files file ≠ none) : Stored
    { s.releaseFile file mode with files := Function.update s.files file none } := by
  have hopen : ∀ f, Function.update s.files file none f ≠ none → f ≠ file ∧ s.files f ≠ none := by
    intro f hf
    rw [Function.update_apply] at hf
    split at hf
    · exact absurd rfl hf
    · next hne => exact ⟨hne, hf⟩
  refine ⟨fun f hf => ?_, fun f f' hf hf' heq => ?_⟩
  · obtain ⟨hne, hf⟩ := hopen f hf
    obtain ⟨hv, hh⟩ := releaseFile_spares mode h hfile hf hne
    dsimp only
    rw [hv, hh]
    exact h.held f hf
  · obtain ⟨hne, hf⟩ := hopen f hf
    obtain ⟨hne', hf'⟩ := hopen f' hf'
    have hv := (releaseFile_spares mode h hfile hf hne).1
    have hv' := (releaseFile_spares mode h hfile hf' hne').1
    exact h.apart f f' hf hf' (hv.symm.trans (heq.trans hv'))

/-- The memory after a request that is granted. -/
theorem enlarge_heap (c : TrigClock) (arg : Word) (h : s.Stored) (hfile : s.files file ≠ none)
    (hf : s.files f ≠ none) :
    ((s.enlarge file c arg).heap (s.version f) ≠ none) ∧ (s.enlarge file c arg).own f =
      if f = file then Function.update (s.own file) c (s.own file c ||| arg) else s.own f := by
  by_cases hne : f = file
  · subst hne
    obtain ⟨l, hl⟩ := Option.ne_none_iff_exists'.1 (h.held f hf)
    have hown : (s.enlarge f c arg).own f = Function.update (s.own f) c (s.own f c ||| arg) := by
      funext c'
      by_cases hc : c' = c
      · subst hc
        simp [own, enlarge, hl]
      · simp [own, enlarge, hl, hc]
    rw [if_pos rfl]
    exact ⟨by simp [enlarge, hl], hown⟩
  · have hblock : s.version f ≠ s.version file := fun heq => hne (h.apart f file hf hfile heq)
    have hheap : (s.enlarge file c arg).heap (s.version f) = s.heap (s.version f) :=
      Function.update_of_ne hblock _ _
    rw [if_neg hne, hheap]
    exact ⟨h.held f hf, funext fun c' => own_congr hheap⟩

/-- Closing a file disables its triggers only if it was open to read and not to write. -/
theorem releaseFile_trigVec : (s.releaseFile file mode).dev.trigVec c =
    if mode.read = true ∧ mode.write = false then s.dev.trigVec c &&& ~~~(s.own file c)
    else s.dev.trigVec c := by
  have hlast : ∀ d : EventDev, (if d.writers = 0 then
      { d with masterFilp := none, eventMask := 0 }.flushEvents else d).trigVec = d.trigVec := by
    intro d
    split <;> rfl
  unfold releaseFile
  cases mode.write with
  | false => cases mode.read <;> cases c <;> rfl
  | true => cases mode.read <;> exact congrFun (hlast _) c

theorem releaseFile_triggerMask (h : s.dev.triggerMask c = s.dev.trigVec c ||| selfInc) :
    (s.releaseFile file mode).dev.triggerMask c =
      (s.releaseFile file mode).dev.trigVec c ||| selfInc := by
  have hlast : ∀ d : EventDev, d.triggerMask c = d.trigVec c ||| selfInc →
      (if d.writers = 0 then { d with masterFilp := none, eventMask := 0 }.flushEvents
        else d).triggerMask c =
      (if d.writers = 0 then { d with masterFilp := none, eventMask := 0 }.flushEvents
        else d).trigVec c ||| selfInc := by
    intro d hd
    split <;> exact hd
  unfold releaseFile
  cases mode.write with
  | false =>
    cases mode.read with
    | false => exact h
    | true => cases c <;> rfl
  | true => cases mode.read <;> exact hlast _ h

theorem flushNth_trig {d : EventDev} {n : ℕ} :
    (d.flushNth n).trigVec = d.trigVec ∧ (d.flushNth n).triggerMask = d.triggerMask := by
  unfold EventDev.flushNth
  split
  · exact ⟨rfl, rfl⟩
  · split
    · exact ⟨rfl, rfl⟩
    · split <;> exact ⟨rfl, rfl⟩

theorem flushTriggers_trig (c : TrigClock) (i : ℕ) (bits : List ℕ) (d : EventDev) :
    (EventDev.flushTriggers c i bits d).trigVec = d.trigVec ∧
    (EventDev.flushTriggers c i bits d).triggerMask = d.triggerMask := by
  induction bits generalizing i d with
  | nil => exact ⟨rfl, rfl⟩
  | cons b bits ih => exact ⟨(ih _ _).1.trans flushNth_trig.1, (ih _ _).2.trans flushNth_trig.2⟩

/-- A request for triggers that is granted. -/
structure Granted (s s' : EventSite) (c : TrigClock) (file : Filp) (arg : Word) : Prop where
  valid : arg &&& trigNoneMask = 0
  free : arg &&& s.dev.trigVec c = 0
  files : s'.files = s.files
  version : s'.version = s.version
  heap : s'.heap = (s.enlarge file c arg).heap
  trigVec : s'.dev.trigVec = Function.update s.dev.trigVec c
    (s.dev.trigVec c ||| (s.enlarge file c arg).own file c)
  triggerMask : s'.dev.triggerMask = Function.update s.dev.triggerMask c
    (s'.dev.trigVec c ||| selfInc)

/-- A request for triggers is refused, or granted. -/
theorem enableTrig_cases (ok : Bool)
    (hown : (s.enlarge file c arg).own file c &&& trigNoneMask = 0 ∨
      arg &&& trigNoneMask ≠ 0) :
    (∃ ret, ret ≠ 0 ∧ s.enableTrig c file ok arg = (ret, s)) ∨
    (s.enableTrig c file ok arg).1 = 0 ∧
      s.Granted (s.enableTrig c file ok arg).2 c file arg := by
  cases ok with
  | false => exact .inl ⟨-eFault, by decide, rfl⟩
  | true =>
    by_cases hvalid : arg = 0 ∨ arg &&& trigNoneMask ≠ 0
    · have heq : s.enableTrig c file true arg = (-eInval, s) := by
        rw [enableTrig, if_neg (by decide), if_pos hvalid]
      exact .inl ⟨-eInval, by decide, heq⟩
    · obtain ⟨-, hvalid'⟩ := not_or.1 hvalid
      have hvalid' := not_not.1 hvalid'
      by_cases hfree : arg &&& s.dev.trigVec c ≠ 0
      · have heq : s.enableTrig c file true arg = (-eBusy, s) := by
          rw [enableTrig, if_neg (by decide), if_neg hvalid, if_pos hfree]
        exact .inl ⟨-eBusy, by decide, heq⟩
      · have hfree' := not_not.1 hfree
        have hmine := hown.resolve_right (not_not.2 hvalid')
        refine .inr ?_
        have hflush := flushTriggers_trig c 0 (trigBits arg) s.dev
        have heq : s.enableTrig c file true arg = (0, { s.enlarge file c arg with
            dev := ((EventDev.flushTriggers c 0 (trigBits arg) s.dev).trigEnable c
              ((s.enlarge file c arg).own file c)).2 }) := by
          rw [enableTrig, if_neg (by decide), if_neg hvalid, if_neg hfree]
          rfl
        rw [heq, EventDev.trigEnable, if_neg (not_not.2 hmine)]
        refine ⟨rfl, hvalid', hfree', rfl, rfl, rfl, ?_, ?_⟩
        · change Function.update _ c _ = _
          rw [hflush.1]
        · change Function.update _ c _ = _
          rw [hflush.2]
          rfl

/-- The triggers of a file together with those of a request that is not refused. -/
theorem valid_enlarge (h : s.Stored) (hfile : s.files file ≠ none)
    (hvalid : ∀ i, (s.own file c).getLsbD i = true → trigNoneMask.getLsbD i = false) :
    (s.enlarge file c arg).own file c &&& trigNoneMask = 0 ∨ arg &&& trigNoneMask ≠ 0 := by
  refine or_iff_not_imp_right.2 fun harg => TrigBooks.and_eq_zero_iff.2 fun i hbit => ?_
  rw [(enlarge_heap c arg h hfile hfile).2, if_pos rfl, Function.update_self, BitVec.getLsbD_or,
    Bool.or_eq_true_iff] at hbit
  obtain hbit | hbit := hbit
  · exact hvalid i hbit
  · exact TrigBooks.and_eq_zero_iff.1 (not_not.1 harg) i hbit

theorem Granted.stored {s' : EventSite} (hg : s.Granted s' c file arg) (h : s.Stored)
    (hfile : s.files file ≠ none) : s'.Stored where
  held f hf := by
    rw [hg.files] at hf
    rw [hg.heap, hg.version]
    exact (enlarge_heap c arg h hfile hf).1
  apart f f' hf hf' heq := by
    rw [hg.files] at hf hf'
    rw [hg.version] at heq
    exact h.apart f f' hf hf' heq

/-- The triggers of the open files after a request that is granted. -/
theorem Granted.own {s' : EventSite} (hg : s.Granted s' c file arg) (h : s.Stored)
    (hfile : s.files file ≠ none) (hf : s.files f ≠ none) : s'.own f =
      if f = file then Function.update (s.own file) c (s.own file c ||| arg) else s.own f := by
  rw [← (enlarge_heap c arg h hfile hf).2]
  refine funext fun c' => own_congr ?_
  rw [hg.heap, hg.version]
  rfl

/-- A trigger of a file is then one that it had, or one that it asked for. -/
theorem Granted.had_or_asked {s' : EventSite} {c' : TrigClock} {i : ℕ}
    (hg : s.Granted s' c file arg) (h : s.Stored) (hfile : s.files file ≠ none)
    (hf : s.files f ≠ none) (hbit : (s'.own f c').getLsbD i = true) :
    (s.own f c').getLsbD i = true ∨ f = file ∧ c' = c ∧ arg.getLsbD i = true := by
  rw [hg.own h hfile hf] at hbit
  by_cases hne : f = file
  · subst hne
    rw [if_pos rfl] at hbit
    by_cases hc : c' = c
    · subst hc
      rw [Function.update_self, BitVec.getLsbD_or, Bool.or_eq_true_iff] at hbit
      exact hbit.imp_right fun hbit => ⟨rfl, rfl, hbit⟩
    · rw [Function.update_of_ne hc] at hbit
      exact .inl hbit
  · rw [if_neg hne] at hbit
    exact .inl hbit

end EventSite

/-! ## The invariant -/

namespace TrigBooks

variable {b : TrigBooks} {m : EventMove} {ms : List EventMove}

/-- The triggers of the open files are their own, and the device has them and the driver's. -/
structure Inv (b : TrigBooks) : Prop where
  stored : b.site.Stored
  own : ∀ f, b.site.files f ≠ none → b.site.own f = b.granted f
  union : ∀ c i, (b.site.dev.trigVec c).getLsbD i = true ↔
    EventDev.baseTriggers.getLsbD i = true ∨ ∃ f, b.Share f c i
  mask : ∀ c, b.site.dev.triggerMask c = b.site.dev.trigVec c ||| selfInc
  base : ∀ f c i, b.Share f c i → EventDev.baseTriggers.getLsbD i = false
  apart : ∀ f f' c i, b.Share f c i → b.Share f' c i → f = f'
  valid : ∀ f c i, b.Share f c i → trigNoneMask.getLsbD i = false

theorem Inv.follows (h : b.Inv) : b.Follows := by
  have hclosed :
      (∀ f, b.site.files f = none) → ∀ c, b.site.dev.trigVec c = EventDev.baseTriggers := by
    intro hnone c
    refine BitVec.eq_of_getLsbD_eq fun i _ => ?_
    have hunion := h.union c i
    simp only [Share, hnone, ne_eq, not_true_eq_false, false_and, exists_false, or_false] at hunion
    exact Bool.eq_iff_iff.2 hunion
  refine ⟨h.union, h.mask, hclosed, fun hnone c file arg hzero hvalid hbase => ?_⟩
  have hinvalid : ¬(arg = 0 ∨ arg &&& trigNoneMask ≠ 0) := not_or.2 ⟨hzero, not_not.2 hvalid⟩
  have hbusy : ¬arg &&& b.site.dev.trigVec c ≠ 0 := by
    rw [hclosed hnone c]
    exact not_not.2 hbase
  rw [EventSite.enableTrig, if_neg (by decide), if_neg hinvalid, if_neg hbusy]

/-- The driver's own triggers are enabled from the start. -/
theorem loaded_trig (mask : TrigClock → Word) (c : TrigClock) :
    (loaded mask).site.dev.trigVec c = EventDev.baseTriggers ∧
    (loaded mask).site.dev.triggerMask c = EventDev.baseTriggers ||| selfInc := by
  have hbase : ¬EventDev.baseTriggers &&& trigNoneMask ≠ 0 := by decide
  have hpm : ¬triggerBit trigPostMortem &&& trigNoneMask ≠ 0 := by decide
  have hagain : EventDev.baseTriggers ||| triggerBit trigPostMortem = EventDev.baseTriggers := by
    decide
  simp only [loaded, EventSite.loaded, EventDev.startTriggers, EventDev.trigEnable, if_neg hbase,
    if_neg hpm, EventDev.writeMask, EventDev.cleared]
  cases c <;> simp [hagain]

theorem inv_loaded {mask : TrigClock → Word} : (loaded mask).Inv where
  stored := ⟨fun _ hf => absurd rfl hf, fun _ _ hf => absurd rfl hf⟩
  own _ hf := absurd rfl hf
  union c i := by
    rw [(loaded_trig mask c).1]
    refine ⟨.inl, ?_⟩
    rintro (h | ⟨_, hf, _⟩)
    · exact h
    · exact absurd rfl hf
  mask c := by rw [(loaded_trig mask c).1, (loaded_trig mask c).2]
  base _ _ _ h := absurd rfl h.1
  apart _ _ _ _ h := absurd rfl h.1
  valid _ _ _ h := absurd rfl h.1

/-- A move that changes neither the vectors nor the shares of the files. -/
theorem Inv.same {b' : TrigBooks} (h : b.Inv) (hstored : b'.site.Stored)
    (hown : ∀ f, b'.site.files f ≠ none → b'.site.own f = b'.granted f)
    (hvec : b'.site.dev.trigVec = b.site.dev.trigVec)
    (hmask : b'.site.dev.triggerMask = b.site.dev.triggerMask)
    (hshare : ∀ f c i, b'.Share f c i ↔ b.Share f c i) : b'.Inv where
  stored := hstored
  own := hown
  union c i := by
    rw [hvec, h.union c i]
    exact or_congr_right (exists_congr fun f => (hshare f c i).symm)
  mask c := by
    rw [hmask, hvec]
    exact h.mask c
  base f c i hs := h.base f c i ((hshare f c i).1 hs)
  apart f f' c i hs hs' := h.apart f f' c i ((hshare f c i).1 hs) ((hshare f' c i).1 hs')
  valid f c i hs := h.valid f c i ((hshare f c i).1 hs)

theorem inv_openFile {dev : Bool} {file : Filp} {mode : FMode} {mem : Option ℕ} (h : b.Inv)
    (hp : b.Possible (.openFile dev file mode mem)) :
    (b.step (.openFile dev file mode mem)).Inv := by
  obtain ⟨hvec, hmask, -⟩ := b.site.openFile_memory dev file mode mem
  have hown : ∀ f, b.site.files f ≠ none →
      (b.step (.openFile dev file mode mem)).site.own f = b.granted f := by
    intro f hf
    obtain ⟨-, hv, hh⟩ := EventSite.openFile_spares h.stored hp hf
    rw [← h.own f hf]
    refine funext fun c => EventSite.own_congr ?_
    exact (congrArg _ hv).trans hh
  by_cases hret : (b.site.openFile dev file mode mem).1 = 0
  · -- the file is open now, and has no triggers
    have hfiles : (b.step (.openFile dev file mode mem)).site.files =
        Function.update b.site.files file (some mode) := if_pos hret
    have hgranted : (b.step (.openFile dev file mode mem)).granted =
        Function.update b.granted file fun _ => 0 := if_pos hret
    refine h.same (EventSite.stored_openFile h.stored hp) (fun f hf => ?_) hvec hmask
      fun f c i => ?_
    · rw [hgranted]
      by_cases hne : f = file
      · subst hne
        obtain ⟨p, -, hversion, hheap⟩ := EventSite.openFile_block hret
        have hblock : (b.step (.openFile dev f mode mem)).site.heap
            ((b.step (.openFile dev f mode mem)).site.version f) = some ⟨fun _ => 0⟩ :=
          (congrArg _ hversion).trans hheap
        rw [Function.update_self]
        funext c
        rw [EventSite.own, hblock]
        rfl
      · rw [hfiles, Function.update_of_ne hne] at hf
        rw [Function.update_of_ne hne]
        exact hown f hf
    · rw [Share, Share, hfiles, hgranted]
      by_cases hne : f = file
      · subst hne
        simp [hp.1]
      · rw [Function.update_of_ne hne, Function.update_of_ne hne]
  · have hfiles : (b.step (.openFile dev file mode mem)).site.files = b.site.files := if_neg hret
    have hgranted : (b.step (.openFile dev file mode mem)).granted = b.granted := if_neg hret
    refine h.same (EventSite.stored_openFile h.stored hp) (fun f hf => ?_) hvec hmask
      fun f c i => ?_
    · rw [hfiles] at hf
      rw [hgranted]
      exact hown f hf
    · rw [Share, Share, hfiles, hgranted]

/-- A file is closed. -/
theorem site_close {file : Filp} {mode : FMode} (hfile : b.site.files file = some mode) :
    (b.step (.close file)).site =
      { b.site.releaseFile file mode with files := Function.update b.site.files file none } := by
  simp only [step, EventSite.step, EventSite.answer, hfile]

theorem share_close {file f : Filp} {mode : FMode} {c : TrigClock} {i : ℕ}
    (hfile : b.site.files file = some mode) :
    (b.step (.close file)).Share f c i ↔ f ≠ file ∧ b.Share f c i := by
  rw [Share, site_close hfile]
  change Function.update b.site.files file none f ≠ none ∧ (b.granted f c).getLsbD i = true ↔ _
  by_cases hne : f = file
  · subst hne
    simp
  · simp [Share, hne]

/-- The vector after a file was closed. -/
theorem trigVec_close {file : Filp} {mode : FMode} (h : b.Inv) (c : TrigClock) (i : ℕ)
    (hfile : b.site.files file = some mode) :
    ((b.step (.close file)).site.dev.trigVec c).getLsbD i = true ↔
      (b.site.dev.trigVec c).getLsbD i = true ∧
        ¬(mode.read = true ∧ mode.write = false ∧ b.Share file c i) := by
  have hopen : b.site.files file ≠ none := by simp [hfile]
  rw [site_close hfile]
  dsimp only
  rw [EventSite.releaseFile_trigVec]
  split
  · next hro =>
    rw [h.own file hopen, BitVec.getLsbD_and, BitVec.getLsbD_not]
    constructor
    · intro hbit
      obtain ⟨hvec, hnot⟩ := Bool.and_eq_true_iff.1 hbit
      obtain ⟨-, hnot⟩ := Bool.and_eq_true_iff.1 hnot
      refine ⟨hvec, fun ⟨_, _, hshare⟩ => ?_⟩
      rw [hshare.2] at hnot
      cases hnot
    · rintro ⟨hvec, hnot⟩
      have hlt := BitVec.lt_of_getLsbD hvec
      have hmine : (b.granted file c).getLsbD i = false := by
        by_contra hbit
        exact hnot ⟨hro.1, hro.2, hopen, by simpa using hbit⟩
      rw [hvec, hmine, decide_eq_true hlt]
      rfl
  · next hro =>
    refine ⟨fun hvec => ⟨hvec, fun ⟨hr, hw, _⟩ => hro ⟨hr, hw⟩⟩, fun ⟨hvec, _⟩ => hvec⟩

/-- The vectors are right after a file was closed, if and only if it leaves nothing behind. -/
theorem union_close {file : Filp} {mode : FMode} (h : b.Inv)
    (hfile : b.site.files file = some mode) :
    (∀ c i, ((b.step (.close file)).site.dev.trigVec c).getLsbD i = true ↔
      EventDev.baseTriggers.getLsbD i = true ∨ ∃ f, (b.step (.close file)).Share f c i) ↔
    b.Clean (.close file) := by
  have hopen : b.site.files file ≠ none := by simp [hfile]
  constructor
  · intro hunion mode' hmode hro c
    rw [hfile] at hmode
    cases hmode
    refine BitVec.eq_of_getLsbD_eq fun i _ => ?_
    refine Eq.trans (Bool.eq_false_iff.2 fun hbit => ?_) BitVec.getLsbD_zero.symm
    have hshare : b.Share file c i := ⟨hopen, hbit⟩
    have hleft := (trigVec_close h c i hfile).2
      ⟨(h.union c i).2 (.inr ⟨file, hshare⟩), fun ⟨hr, hw, _⟩ => hro ⟨hr, hw⟩⟩
    obtain hbase | ⟨f, hf⟩ := (hunion c i).1 hleft
    · exact Bool.false_ne_true ((h.base file c i hshare).symm.trans hbase)
    · obtain ⟨hne, hf⟩ := (share_close hfile).1 hf
      exact hne (h.apart f file c i hf hshare)
  · intro hclean c i
    rw [trigVec_close h c i hfile, h.union c i]
    constructor
    · rintro ⟨hbase | ⟨f, hf⟩, hnot⟩
      · exact .inl hbase
      · refine .inr ⟨f, (share_close hfile).2 ⟨?_, hf⟩⟩
        rintro rfl
        by_cases hro : mode.read = true ∧ mode.write = false
        · exact hnot ⟨hro.1, hro.2, hf⟩
        · have hbit := hf.2
          rw [hclean mode hfile hro c] at hbit
          simp at hbit
    · rintro (hbase | ⟨f, hf⟩)
      · refine ⟨.inl hbase, fun ⟨_, _, hshare⟩ => ?_⟩
        exact Bool.false_ne_true ((h.base file c i hshare).symm.trans hbase)
      · obtain ⟨hne, hf⟩ := (share_close hfile).1 hf
        exact ⟨.inr ⟨f, hf⟩, fun ⟨_, _, hshare⟩ => hne (h.apart f file c i hf hshare)⟩

theorem inv_close {file : Filp} {mode : FMode} (h : b.Inv) (hfile : b.site.files file = some mode)
    (hclean : b.Clean (.close file)) : (b.step (.close file)).Inv := by
  have hopen : b.site.files file ≠ none := by simp [hfile]
  refine ⟨?_, fun f hf => ?_, (union_close h hfile).2 hclean, fun c => ?_,
    fun f c i hs => ?_, fun f f' c i hs hs' => ?_, fun f c i hs => ?_⟩
  · rw [site_close hfile]
    exact EventSite.stored_close h.stored hopen
  · rw [site_close hfile] at hf ⊢
    obtain ⟨hne, hf⟩ : f ≠ file ∧ b.site.files f ≠ none := by
      by_cases hne : f = file
      · subst hne
        simp at hf
      · simpa [hne] using hf
    obtain ⟨hv, hh⟩ := EventSite.releaseFile_spares mode h.stored hopen hf hne
    have hsame : b.site.own f = b.granted f := h.own f hf
    rw [show (b.step (.close file)).granted = b.granted from rfl, ← hsame]
    exact funext fun c => EventSite.own_congr ((congrArg _ hv).trans hh)
  · rw [site_close hfile]
    exact EventSite.releaseFile_triggerMask (h.mask c)
  · exact h.base f c i ((share_close hfile).1 hs).2
  · exact h.apart f f' c i ((share_close hfile).1 hs).2 ((share_close hfile).1 hs').2
  · exact h.valid f c i ((share_close hfile).1 hs).2

theorem share_enable {c : TrigClock} (c' : TrigClock) {file f : Filp} {ok : Bool} {arg : Word}
    {i : ℕ}
    (hfile : b.site.files file ≠ none)
    (hret : (b.site.enableTrig c file ok arg).1 = 0)
    (hfiles : (b.site.enableTrig c file ok arg).2.files = b.site.files) :
    (b.step (.enableTrig c file ok arg)).Share f c' i ↔
      b.Share f c' i ∨ f = file ∧ c' = c ∧ arg.getLsbD i = true := by
  have hgranted : (b.step (.enableTrig c file ok arg)).granted = Function.update b.granted file
      (Function.update (b.granted file) c (b.granted file c ||| arg)) := if_pos hret
  have hsite : (b.step (.enableTrig c file ok arg)).site.files = b.site.files := hfiles
  rw [Share, Share, hsite, hgranted]
  by_cases hne : f = file
  · subst hne
    by_cases hc : c' = c
    · subst hc
      simp [hfile]
    · simp [hc]
  · simp [hne]

theorem inv_enableTrig {c : TrigClock} {file : Filp} {ok : Bool} {arg : Word} (h : b.Inv)
    (hfile : b.site.files file ≠ none) : (b.step (.enableTrig c file ok arg)).Inv := by
  have hmine : (b.site.enlarge file c arg).own file c = b.granted file c ||| arg := by
    rw [(EventSite.enlarge_heap c arg h.stored hfile hfile).2, if_pos rfl, Function.update_self,
      h.own file hfile]
  have hvalid : (b.site.enlarge file c arg).own file c &&& trigNoneMask = 0 ∨
      arg &&& trigNoneMask ≠ 0 :=
    EventSite.valid_enlarge h.stored hfile fun i hbit =>
      h.valid file c i ⟨hfile, h.own file hfile ▸ hbit⟩
  obtain ⟨ret, hret, heq⟩ | ⟨hret, hg⟩ := EventSite.enableTrig_cases ok hvalid
  · -- the request is refused
    have hstep : b.step (.enableTrig c file ok arg) = b := by
      simp only [step, EventSite.step, EventSite.answer, heq, enter, if_neg hret]
    rw [hstep]
    exact h
  · have hshare := fun f c' i =>
      share_enable (f := f) (i := i) c' hfile hret hg.files
    have hfree : ∀ i, arg.getLsbD i = true → (b.site.dev.trigVec c).getLsbD i = false :=
      and_eq_zero_iff.1 hg.free
    have hsite : (b.step (.enableTrig c file ok arg)).site =
        (b.site.enableTrig c file ok arg).2 := rfl
    refine ⟨hg.stored h.stored hfile, fun f hf => ?_, fun c' i => ?_, fun c' => ?_,
      fun f c' i hs => ?_, fun f f' c' i hs hs' => ?_, fun f c' i hs => ?_⟩
    · rw [hsite, hg.files] at hf
      have hgranted : (b.step (.enableTrig c file ok arg)).granted = Function.update b.granted file
          (Function.update (b.granted file) c (b.granted file c ||| arg)) := if_pos hret
      rw [hsite, hg.own h.stored hfile hf, hgranted]
      by_cases hne : f = file
      · subst hne
        rw [if_pos rfl, Function.update_self, h.own f hf]
      · rw [if_neg hne, Function.update_of_ne hne, h.own f hf]
    · rw [hsite, hg.trigVec, hmine]
      by_cases hc : c' = c
      · subst hc
        rw [Function.update_self]
        rw [BitVec.getLsbD_or, BitVec.getLsbD_or, Bool.or_eq_true_iff, Bool.or_eq_true_iff,
          h.union c' i, exists_congr fun f => hshare f c' i]
        constructor
        · rintro ((hbase | ⟨f, hf⟩) | hbit | hbit)
          · exact .inl hbase
          · exact .inr ⟨f, .inl hf⟩
          · exact .inr ⟨file, .inl ⟨hfile, hbit⟩⟩
          · exact .inr ⟨file, .inr ⟨rfl, rfl, hbit⟩⟩
        · rintro (hbase | ⟨f, hf | ⟨-, -, hbit⟩⟩)
          · exact .inl (.inl hbase)
          · exact .inl (.inr ⟨f, hf⟩)
          · exact .inr (.inr hbit)
      · rw [Function.update_of_ne hc, h.union c' i]
        simp [hshare, hc]
    · rw [hsite, hg.triggerMask]
      by_cases hc : c' = c
      · subst hc
        rw [Function.update_self]
      · rw [Function.update_of_ne hc, hg.trigVec, Function.update_of_ne hc]
        exact h.mask c'
    · obtain hs | ⟨-, rfl, hbit⟩ := (hshare f c' i).1 hs
      · exact h.base f c' i hs
      · refine Bool.eq_false_iff.2 fun hbase => ?_
        exact Bool.false_ne_true ((hfree i hbit).symm.trans ((h.union c' i).2 (.inl hbase)))
    · -- the triggers of the request are nobody's
      have hnobody : ∀ f, arg.getLsbD i = true → ¬b.Share f c i := fun f hbit hs =>
        Bool.false_ne_true ((hfree i hbit).symm.trans ((h.union c i).2 (.inr ⟨f, hs⟩)))
      obtain hs | ⟨hf, hc, hbit⟩ := (hshare f c' i).1 hs
      · obtain hs' | ⟨-, hc, hbit'⟩ := (hshare f' c' i).1 hs'
        · exact h.apart f f' c' i hs hs'
        · exact absurd (hc ▸ hs) (hnobody f hbit')
      · obtain hs' | ⟨hf', -, -⟩ := (hshare f' c' i).1 hs'
        · exact absurd (hc ▸ hs') (hnobody f' hbit)
        · exact hf.trans hf'.symm
    · obtain hs | ⟨-, -, hbit⟩ := (hshare f c' i).1 hs
      · exact h.valid f c' i hs
      · exact and_eq_zero_iff.1 hg.valid i hbit

theorem inv_step (h : b.Inv) (hp : b.Possible m) (hc : b.Clean m) : (b.step m).Inv := by
  cases m with
  | openFile dev file mode mem => exact inv_openFile h hp
  | close file =>
    obtain ⟨mode, hfile⟩ := Option.ne_none_iff_exists'.1 hp
    exact inv_close h hfile hc
  | enableTrig c file ok arg => exact inv_enableTrig h hp

/-- The triggers follow the open files after a move, if and only if it is clean. -/
theorem follows_iff (h : b.Inv) (hp : b.Possible m) : (b.step m).Follows ↔ b.Clean m := by
  cases m with
  | openFile dev file mode mem => exact ⟨fun _ => trivial, fun _ => (inv_openFile h hp).follows⟩
  | close file =>
    obtain ⟨mode, hfile⟩ := Option.ne_none_iff_exists'.1 hp
    exact ⟨fun hf => (union_close h hfile).1 hf.union, fun hc => (inv_close h hfile hc).follows⟩
  | enableTrig c file ok arg => exact ⟨fun _ => trivial, fun _ => (inv_enableTrig h hp).follows⟩

/-- **The enabled triggers follow the open files.** From the loading of the driver, the triggers
that are enabled are in every state the driver's own and those of the open files, if and only if
every file that is closed was open only to read, or had no triggers. -/
theorem enabled_iff {mask : TrigClock → Word} (hp : Along step Possible (loaded mask) ms) :
    ((loaded mask).Follows ∧ Along step (fun b m => (b.step m).Follows) (loaded mask) ms) ↔
      Along step Clean (loaded mask) ms := by
  have hiff := along_iff hp inv_loaded
    (fun _ _ h hp => follows_iff h hp) fun _ _ h hp hc => inv_step h hp hc
  exact ⟨fun h => hiff.1 h.2, fun h => ⟨inv_loaded.follows, hiff.2 h⟩⟩

/-- A file that is open only to read enables the first trigger, and is closed. -/
theorem enabled_reader :
    let ms : List EventMove := [.openFile true 1 ⟨true, false⟩ (some 100),
      .enableTrig .sc 1 true (triggerBit 0), .close 1]
    ((loaded fun _ => 0).Follows ∧
      Along step (fun b m => (b.step m).Follows) (loaded fun _ => 0) ms) ↔
      Along step Clean (loaded fun _ => 0) ms := by
  have hopen : some (⟨true, false⟩ : FMode) ≠ none := nofun
  exact enabled_iff ⟨⟨rfl, fun _ _ => rfl⟩, hopen, hopen, trivial⟩

/-- A file that is open for reading and writing enables the first trigger and is closed, and the
trigger stays enabled. -/
theorem trigger_stays_enabled :
    ¬∀ (mask : TrigClock → Word) (ms : List EventMove), Along step Possible (loaded mask) ms →
      (loaded mask).Follows ∧ Along step (fun b m => (b.step m).Follows) (loaded mask) ms := by
  intro h
  let b : TrigBooks := (loaded fun _ => 0).step (.openFile true 1 ⟨true, true⟩ (some 100))
  have hopen : b.site.files 1 = some ⟨true, true⟩ := rfl
  have hfiles : (b.step (.enableTrig .sc 1 true (triggerBit 0))).site.files = b.site.files :=
    EventSite.enableTrig_files
  have hfile : (b.step (.enableTrig .sc 1 true (triggerBit 0))).site.files 1 = some ⟨true, true⟩ :=
    (congrFun hfiles 1).trans hopen
  have hpossible : (b.step (.enableTrig .sc 1 true (triggerBit 0))).Possible (.close 1) := by
    change (b.step (.enableTrig .sc 1 true (triggerBit 0))).site.files 1 ≠ none
    rw [hfile]
    nofun
  have hlast := (h (fun _ => 0) [.openFile true 1 ⟨true, true⟩ (some 100),
    .enableTrig .sc 1 true (triggerBit 0), .close 1]
    ⟨⟨rfl, fun _ _ => rfl⟩, show b.site.files 1 ≠ none from nofun, hpossible, trivial⟩).2.2.2.1
  obtain hbase | ⟨f, hshare⟩ := (hlast.union .sc 22).1 (by decide +kernel)
  · revert hbase
    decide
  · -- no file is open
    obtain ⟨hne, hshare, -⟩ := (share_close hfile).1 hshare
    exact hshare ((congrFun hfiles f).trans (Function.update_of_ne hne _ _))

end TrigBooks

end LiberaDaq.Kernel
