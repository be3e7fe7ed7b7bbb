import LiberaDaq.Interaction.Path
import LiberaDaq.Kernel.TrigDevice

/-!
# Setting the time with a trigger

A request for a new time (`LIBERA_EVENT_SET_ST`, `LIBERA_EVENT_SET_MT`) leaves its reference at the
device, switches the mode of the trigger to SET and arms its part of the time. The next TRIGGER is
to apply it: its two handlers store the raw counters instead of the stamps, and the second one
computes the new offsets from them.

The handlers look at the mode each for itself, and requests come between them. A site is the device
with the books of what came so far; `Applies` says that the offsets which a trigger installs refer
to its own raw counters and to the references that were armed since the trigger before, and `Timely`
what it takes. `Consistent` is the invariant that leads from one to the other.
-/

namespace LiberaDaq.Kernel

open LiberaDaq.Cspi LiberaDaq.Interaction

/-! ## The parts of the time -/

/-- System time, which is counted by SC, and machine time, which is counted by MC. -/
inductive TimePart
  | st | mt
  deriving DecidableEq, Repr

/-- The flag that arms a part. -/
def TimePart.flag : TimePart → Word
  | .st => liberaSettimeSt
  | .mt => liberaSettimeMt

namespace SettimeState

/-- The reference of a part. -/
def ref (t : SettimeState) : TimePart → BitVec 64
  | .st => t.lstRef
  | .mt => t.lmtRef

def setRef (t : SettimeState) (ref : BitVec 64) : TimePart → SettimeState
  | .st => { t with lstRef := ref }
  | .mt => { t with lmtRef := ref }

def setPhi (t : SettimeState) (phi : BitVec 64) : TimePart → SettimeState
  | .st => { t with scphi := phi }
  | .mt => { t with mcphi := phi }

/-- `libera_set_LST`, for the pair that it reads. -/
def setLST (t : SettimeState) (trig : LTimestamp) : SettimeState :=
  { t with lstOff := t.lstRef - t.scphi - trig.lst.time }

/-- `libera_set_LMT`, for the pair that it reads. -/
def setLMT (g : Global) (t : SettimeState) (trig : LTimestamp) : SettimeState :=
  let offAll := t.lmtRef - t.mcphi - trig.lmt.time + t.lmtOffPll
  let offPll := if g.dfa ≠ 0 then offAll % (g.d * g.dfa).setWidth 64 else 0
  { t with lmtOffAll := offAll, lmtOffPll := offPll, lmtOff := offAll - offPll }

/-- `libera_set_time`, for the pair that it reads. -/
def setTime (g : Global) (t : SettimeState) (trig : LTimestamp) : SettimeState :=
  let t := if t.update &&& liberaSettimeSt ≠ 0 then t.setLST trig else t
  let t := if t.update &&& liberaSettimeMt ≠ 0 then t.setLMT g trig else t
  { t with update := 0 }

end SettimeState

/-! ## What a handler does to the time -/

/-- The device as far as it concerns the time: `settime`, the mode, the pairs of the TRIGGER, and
how many of its stamps each handler has come to. -/
structure TimeView where
  settime : SettimeState
  trigmode : Word
  buf : CircBuf
  scCount : ℕ
  mcCount : ℕ

def TrigDevice.timeView (s : TrigDevice) : TimeView where
  settime := s.settime
  trigmode := s.cfg.param .trigmode
  buf := s.pairedTimestamps trigTrigger
  scCount := s.scCount trigTrigger
  mcCount := s.mcCount trigTrigger

/-- The SC half of a TRIGGER. -/
def TimeView.sc (raw : BitVec 64) (v : TimeView) : TimeView :=
  let time := if v.trigmode = trigmodeSet then raw else raw + v.settime.lstOff
  { v with buf := v.buf.putLST ⟨time, v.scCount + 1⟩, scCount := v.scCount + 1 }

/-- The MC half of a TRIGGER, which finds in the buffer what it has just stored. -/
def TimeView.mc (g : Global) (raw : BitVec 64) (v : TimeView) : TimeView :=
  if v.trigmode = trigmodeSet then
    { v with
      buf := v.buf.putLMT ⟨raw, v.mcCount + 1⟩
      settime := v.settime.setTime g { v.buf.stamp v.buf.put with lmt := ⟨raw, v.mcCount + 1⟩ }
      trigmode := trigmodeGet
      mcCount := v.mcCount + 1 }
  else
    { v with
      buf := v.buf.putLMT ⟨raw + v.settime.lmtOff, v.mcCount + 1⟩
      mcCount := v.mcCount + 1 }

/-- The entry is one of a TRIGGER. -/
def TrigEntry.isTrigger (e : TrigEntry) : Bool := e.triggers.contains trigTrigger

/-- The raw counter of SC in an entry. -/
def TrigDevice.rawSc (s : TrigDevice) (e : TrigEntry) : BitVec 64 :=
  e.stamp (if e.selfInc then s.scTime + 0x4000000 else s.scTime)

/-- The raw counter of MC in an entry. -/
def TrigDevice.rawMc (s : TrigDevice) (e : TrigEntry) : BitVec 64 :=
  e.stamp (if e.selfInc then s.mcTime + 0x4000000 else s.mcTime)

/-- The pair that was stored last. -/
theorem getFrom_putLMT (q : CircBuf) (lmt : HwStamp) :
    (q.putLMT lmt).getFrom = { q.stamp q.put with lmt := lmt } := by
  have hput : ((q.putLMT lmt).put + trigLog - 1) &&& trigLogMask = q.put := by
    have hlt := q.put_lt
    simp only [CircBuf.putLMT, and_trigLogMask]
    unfold trigLog at *
    omega
  rw [CircBuf.getFrom, hput]
  simp [CircBuf.putLMT]

/-- `libera_set_time` changes the offsets and disarms. -/
theorem timeView_setTime (g : Global) (s : TrigDevice) :
    (s.setTime g).timeView =
      { s.timeView with
        settime := s.timeView.settime.setTime g s.timeView.buf.getFrom } := by
  unfold TrigDevice.setTime TrigDevice.timeView SettimeState.setTime
  by_cases hst : s.settime.update &&& liberaSettimeSt = 0#32 <;>
    by_cases hmt : s.settime.update &&& liberaSettimeMt = 0#32 <;>
      simp [hst, hmt, TrigDevice.setLST, TrigDevice.setLMT, SettimeState.setLST,
        SettimeState.setLMT]

section

variable {g : Global} {s : TrigDevice} {stamp stampRaw : BitVec 64} {i : ℕ}

/-- The SC handler does nothing to the time for the other triggers. -/
theorem timeView_scTrigger_other (hi : i ≠ trigTrigger) :
    (s.scTrigger stamp stampRaw i).timeView = s.timeView := by
  unfold TrigDevice.scTrigger
  rw [if_neg hi]
  unfold TrigDevice.scTrigSpecific
  split_ifs <;> simp [TrigDevice.timeView, TrigDevice.countSc, TrigDevice.putSc, TrigDevice.putLST,
    Function.update_of_ne hi.symm]

theorem timeView_scTrigger :
    (s.scTrigger (stampRaw + s.settime.lstOff) stampRaw trigTrigger).timeView =
      s.timeView.sc stampRaw := by
  unfold TrigDevice.scTrigger TimeView.sc
  rw [if_pos rfl]
  by_cases hmode : s.cfg.param .trigmode = trigmodeSet <;>
    simp [TrigDevice.timeView, TrigDevice.countSc, TrigDevice.putLST, hmode]

/-- The MC handler does nothing to the time for the other triggers. -/
theorem timeView_mcTrigger_other (hi : i ≠ trigTrigger) :
    (s.mcTrigger g stamp stampRaw i).timeView = s.timeView := by
  unfold TrigDevice.mcTrigger
  rw [if_neg hi]
  unfold TrigDevice.mcTrigSpecific TrigDevice.postMortem
  dsimp only
  split_ifs <;> simp [TrigDevice.timeView, TrigDevice.countMc, TrigDevice.putMc, TrigDevice.putLMT,
    Function.update_of_ne hi.symm]

theorem timeView_putLMT {time : BitVec 64} :
    ((s.countMc trigTrigger).putLMT trigTrigger time).timeView =
      { s.timeView with
        buf := s.timeView.buf.putLMT ⟨time, s.timeView.mcCount + 1⟩
        mcCount := s.timeView.mcCount + 1 } := by
  simp [TrigDevice.timeView, TrigDevice.countMc, TrigDevice.putLMT]

theorem timeView_mcTrigger :
    (s.mcTrigger g (stampRaw + s.settime.lmtOff) stampRaw trigTrigger).timeView =
      s.timeView.mc g stampRaw := by
  unfold TrigDevice.mcTrigger TimeView.mc
  rw [if_pos rfl]
  by_cases hmode : s.cfg.param .trigmode = trigmodeSet
  · have hmirror : ∀ s' : TrigDevice,
        ({ s' with cfg := s'.cfg.mirror .trigmode trigmodeGet } : TrigDevice).timeView =
          { s'.timeView with trigmode := trigmodeGet } := fun s' => by
      simp [TrigDevice.timeView, CfgDevice.mirror]
    have hcount : (s.countMc trigTrigger).cfg.param .trigmode = trigmodeSet := hmode
    have hview : s.timeView.trigmode = trigmodeSet := hmode
    simp only [hcount, hview, ↓reduceIte, hmirror, timeView_setTime, timeView_putLMT,
      getFrom_putLMT]
  · have hcount : (s.countMc trigTrigger).cfg.param .trigmode ≠ trigmodeSet := hmode
    have hview : s.timeView.trigmode ≠ trigmodeSet := hmode
    simp only [hcount, hview, ↓reduceIte, timeView_putLMT]
    rfl

/-- A loop that does something to a view for one of its items only. -/
theorem foldl_once {σ β : Type} {f : σ → ℕ → σ} {v : σ → β} {w : β → β} {a : ℕ}
    (hother : ∀ s i, i ≠ a → v (f s i) = v s) (is : List ℕ) (hnodup : is.Nodup) (s : σ)
    (hself : ∀ s', v s' = v s → v (f s' a) = w (v s)) :
    v (is.foldl f s) = if is.contains a then w (v s) else v s := by
  induction is using List.reverseRecOn with
  | nil => rfl
  | append_singleton is i ih =>
    obtain ⟨hnodup, -, hnot⟩ := List.nodup_append.1 hnodup
    rw [List.foldl_append, List.foldl_cons, List.foldl_nil]
    have hi : i ∉ is := fun hmem => hnot i hmem i List.mem_cons_self rfl
    rcases eq_or_ne i a with rfl | hne
    · have hbefore : v (is.foldl f s) = v s := by
        rw [ih hnodup, if_neg (by simpa using hi)]
      rw [hself _ hbefore, if_pos (by simp)]
    · rw [hother _ i hne, ih hnodup]
      simp [hne.symm]

theorem triggers_nodup (e : TrigEntry) : e.triggers.Nodup := List.nodup_range.filter _

/-- What the SC handler does to the time for an entry. -/
theorem timeView_scEntry (e : TrigEntry) : (s.scEntry e).timeView =
    if e.isTrigger then s.timeView.sc (s.rawSc e) else s.timeView := by
  obtain ⟨s₀, hs₀⟩ : ∃ s₀ : TrigDevice,
      s₀ = if e.selfInc then { s with scTime := s.scTime + 0x4000000 } else s := ⟨_, rfl⟩
  have hview : s₀.timeView = s.timeView := by
    rw [hs₀]
    split <;> simp only [TrigDevice.timeView]
  have hraw : e.stamp s₀.scTime = s.rawSc e := by
    rw [hs₀, TrigDevice.rawSc]
    split <;> rfl
  have honce := foldl_once (v := TrigDevice.timeView) (w := TimeView.sc (s.rawSc e))
    (f := TrigDevice.scTrigger (s.rawSc e + s₀.settime.lstOff) (s.rawSc e)) (a := trigTrigger)
    (fun _ _ hi => timeView_scTrigger_other hi) e.triggers (triggers_nodup e) s₀ fun s' hs' => by
      have hoff : s'.settime.lstOff = s₀.settime.lstOff :=
        congrArg (fun v => v.settime.lstOff) hs'
      rw [← hoff, timeView_scTrigger, hs']
  rw [hview] at honce
  rw [TrigEntry.isTrigger, ← honce, ← hraw, hs₀]
  rfl

/-- What the MC handler does to the time for an entry. -/
theorem timeView_mcEntry (e : TrigEntry) : (s.mcEntry g e).timeView =
    if e.isTrigger then s.timeView.mc g (s.rawMc e) else s.timeView := by
  obtain ⟨s₀, hs₀⟩ : ∃ s₀ : TrigDevice,
      s₀ = if e.selfInc then { s with mcTime := s.mcTime + 0x4000000 } else s := ⟨_, rfl⟩
  have hview : s₀.timeView = s.timeView := by
    rw [hs₀]
    split <;> simp only [TrigDevice.timeView]
  have hraw : e.stamp s₀.mcTime = s.rawMc e := by
    rw [hs₀, TrigDevice.rawMc]
    split <;> rfl
  have honce := foldl_once (v := TrigDevice.timeView) (w := TimeView.mc g (s.rawMc e))
    (f := TrigDevice.mcTrigger g (s.rawMc e + s₀.settime.lmtOff) (s.rawMc e)) (a := trigTrigger)
    (fun _ _ hi => timeView_mcTrigger_other hi) e.triggers (triggers_nodup e) s₀ fun s' hs' => by
      have hoff : s'.settime.lmtOff = s₀.settime.lmtOff :=
        congrArg (fun v => v.settime.lmtOff) hs'
      rw [← hoff, timeView_mcTrigger, hs']
  rw [hview] at honce
  rw [TrigEntry.isTrigger, ← honce, ← hraw, hs₀]
  rfl

end

/-! ## Sites and their moves -/

/-- A request that has copied its reference to the device. `moded` tells whether it has switched the
mode of the trigger, which it does before it arms its part. -/
structure Arming where
  part : TimePart
  ref : BitVec 64
  moded : Bool
  deriving DecidableEq

/-- The device with its books: the raw SC counters of the triggers so far; whether the SC half of a
TRIGGER came since the last MC half, and the mode that it found; the request that is under way; and
the references that were armed since the last MC half. -/
structure SettimeSite where
  device : TrigDevice
  rawLst : List (BitVec 64)
  half : Option Bool
  arming : Option Arming
  armed : TimePart → Option (BitVec 64)

/-- What happens at a site. The handlers come to an entry, and a request for a time makes its three
assignments in turn, so that handlers may come between them. -/
inductive SettimeMove
  | sc (e : TrigEntry)
  | mc (e : TrigEntry)
  /-- `dev->settime.lst.ref` or `dev->settime.lmt.ref` is assigned. -/
  | copy (part : TimePart) (ref : BitVec 64)
  /-- `cfg->param[LIBERA_CFG_TRIGMODE] = LIBERA_TRIGMODE_SET`. -/
  | mode
  /-- `dev->settime.update |= ..`. -/
  | arm
  /-- `LIBERA_EVENT_SET_SCPHI` and `LIBERA_EVENT_SET_MCPHI`. -/
  | phi (part : TimePart) (phi : BitVec 64)

namespace SettimeSite

/-- The site when the driver was loaded. -/
def start (cfg : CfgDevice) : SettimeSite := ⟨.start cfg, [], none, none, fun _ => none⟩

/-- An assignment to `settime`. -/
def setTimeTo (s : SettimeSite) (t : SettimeState) : SettimeSite :=
  { s with device := { s.device with settime := t } }

def step (g : Global) (s : SettimeSite) : SettimeMove → SettimeSite
  | .sc e =>
    { s with
      device := s.device.scEntry e
      rawLst := if e.isTrigger then s.rawLst ++ [s.device.rawSc e] else s.rawLst
      half := if e.isTrigger then some (s.device.cfg.param .trigmode = trigmodeSet) else s.half }
  | .mc e =>
    { s with
      device := s.device.mcEntry g e
      half := if e.isTrigger then none else s.half
      armed := if e.isTrigger then fun _ => none else s.armed }
  | .copy part ref =>
    { s.setTimeTo (s.device.settime.setRef ref part) with arming := some ⟨part, ref, false⟩ }
  | .mode =>
    { s with
      device := { s.device with cfg := s.device.cfg.mirror .trigmode trigmodeSet }
      arming := s.arming.map fun a => { a with moded := true } }
  | .arm =>
    match s.arming with
    | some a =>
      { s.setTimeTo { s.device.settime with update := s.device.settime.update ||| a.part.flag } with
        arming := none
        armed := Function.update s.armed a.part (some a.ref) }
    | none => s
  | .phi part phi => s.setTimeTo (s.device.settime.setPhi phi part)

/-- A request makes its assignments in turn, and no other one comes between them. A machine time is
only accepted when its phase is below `lgbl.d`. -/
def Proper (g : Global) (s : SettimeSite) : SettimeMove → Prop
  | .copy part _ => s.arming = none ∧ (part = .mt → g.d ≠ 0)
  | .mode => ∃ a ∈ s.arming, a.moded = false
  | .arm => ∃ a ∈ s.arming, a.moded = true
  | _ => True

/-- The three assignments of a request, one after the other, are the request. -/
theorem request_st (g : Global) (s : SettimeSite) (ref : BitVec 64) :
    ([.copy .st ref, .mode, .arm].foldl (step g) s).device = s.device.step g (.setSt ref) := rfl

theorem request_mt (g : Global) (s : SettimeSite) (ref : BitVec 64) :
    ([.copy .mt ref, .mode, .arm].foldl (step g) s).device = s.device.step g (.setMt ref) := rfl

/-! ## What is asked of a trigger -/

/-- The system time is applied as it was armed: with the raw counter of this same trigger, or not at
all. -/
def AppliesSt (s : SettimeSite) (t : SettimeState) : Prop :=
  match s.armed .st with
  | some ref =>
    ∃ raw ∈ s.rawLst[s.device.mcCount trigTrigger]?,
      raw + t.lstOff = ref - s.device.settime.scphi
  | none => t.lstOff = s.device.settime.lstOff

/-- The machine time is applied as it was armed: with the raw counter `raw`, or not at all. -/
def AppliesMt (g : Global) (s : SettimeSite) (raw : BitVec 64) (t : SettimeState) : Prop :=
  match s.armed .mt with
  | some ref =>
    t.lmtOff + t.lmtOffPll =
        ref - s.device.settime.mcphi - raw + s.device.settime.lmtOffPll ∧
      (g.dfa ≠ 0 → g.d.toNat * g.dfa.toNat ∣ t.lmtOff.toNat)
  | none => t.lmtOff = s.device.settime.lmtOff ∧ t.lmtOffPll = s.device.settime.lmtOffPll

/-- The MC half of a TRIGGER applies what was armed since the TRIGGER before, and nothing else. No
other move changes an offset. -/
def Applies (g : Global) (s : SettimeSite) (m : SettimeMove) : Prop :=
  let t := (s.step g m).device.settime
  match m with
  | .mc e =>
    if e.isTrigger then s.AppliesSt t ∧ s.AppliesMt g (s.device.rawMc e) t
    else t = s.device.settime
  | _ =>
    t.lstOff = s.device.settime.lstOff ∧ t.lmtOff = s.device.settime.lmtOff ∧
      t.lmtOffPll = s.device.settime.lmtOffPll

/-- The MC half of a TRIGGER does not fall between the assignments of a request: not after the mode,
nor after a new reference for a part that is armed. When a system time is armed, the SC half of this
same TRIGGER is the one that came last, and it found the mode SET. -/
def Timely (s : SettimeSite) : SettimeMove → Prop
  | .mc e =>
    e.isTrigger →
      (∀ a ∈ s.arming, a.moded = false ∧ s.armed a.part = none) ∧
      ((s.armed .st).isSome →
        s.half = some true ∧ s.device.scCount trigTrigger = s.device.mcCount trigTrigger + 1)
  | _ => True

instance (g : Global) (s : SettimeSite) (m : SettimeMove) : Decidable (s.Proper g m) := by
  cases m <;> unfold Proper <;> infer_instance

instance (s : SettimeSite) (m : SettimeMove) : Decidable (s.Timely m) := by
  cases m <;> unfold Timely <;> infer_instance

/-! ## The invariant -/

/-- The mode and the flags of the device tell what is armed, its references are those that were
armed, and the slot of the next pair has the raw counter of the last SC half if that found SET. -/
structure Consistent (s : SettimeSite) : Prop where
  flags : ∀ part, s.device.settime.update &&& part.flag ≠ 0 ↔ (s.armed part).isSome
  mode : s.device.cfg.param .trigmode = trigmodeSet ↔
    (∃ part, (s.armed part).isSome) ∨ ∃ a ∈ s.arming, a.moded = true
  refs : ∀ part ref, s.armed part = some ref → (∀ a ∈ s.arming, a.part ≠ part) →
    s.device.settime.ref part = ref
  copied : ∀ a ∈ s.arming, s.device.settime.ref a.part = a.ref
  counted : s.rawLst.length = s.device.scCount trigTrigger
  slot : s.half = some true → s.rawLst.getLast? =
    some (s.device.timeView.buf.stamp s.device.timeView.buf.put).lst.time

variable {g : Global} {s : SettimeSite} {e : TrigEntry}

theorem start_consistent {cfg : CfgDevice} (hmode : cfg.param .trigmode = trigmodeGet) :
    (start cfg).Consistent where
  flags part := by
    cases part <;> simp [start, TrigDevice.start]
  mode := by simp [start, TrigDevice.start, hmode, trigmodeGet, trigmodeSet]
  refs _ _ h := by simp [start] at h
  copied _ h := by simp [start] at h
  counted := rfl
  slot h := by simp [start] at h

/-! ### The SC half -/

theorem settime_scEntry (s : TrigDevice) (e : TrigEntry) : (s.scEntry e).settime = s.settime := by
  have hview := congrArg TimeView.settime (timeView_scEntry (s := s) e)
  refine hview.trans ?_
  split <;> rfl

theorem trigmode_scEntry (s : TrigDevice) (e : TrigEntry) :
    (s.scEntry e).cfg.param .trigmode = s.cfg.param .trigmode := by
  have hview := congrArg TimeView.trigmode (timeView_scEntry (s := s) e)
  refine hview.trans ?_
  split <;> rfl

theorem Consistent.sc (h : s.Consistent) (e : TrigEntry) : (s.step g (.sc e)).Consistent := by
  have hview := timeView_scEntry (s := s.device) e
  have hcount : (s.device.scEntry e).scCount trigTrigger =
      if e.isTrigger then s.device.scCount trigTrigger + 1 else s.device.scCount trigTrigger := by
    refine (congrArg TimeView.scCount hview).trans ?_
    split <;> rfl
  refine ⟨?_, ?_, ?_, ?_, ?_, ?_⟩ <;> simp only [step, settime_scEntry, trigmode_scEntry]
  · exact h.flags
  · exact h.mode
  · exact h.refs
  · exact h.copied
  · rw [hcount]
    by_cases he : e.isTrigger = true <;> simp [he, h.counted]
  · by_cases he : e.isTrigger = true
    · rw [if_pos he] at hview
      simp only [he, ↓reduceIte, hview, List.getLast?_concat]
      intro hmode
      have hset : s.device.timeView.trigmode = trigmodeSet := by
        simpa [TrigDevice.timeView] using hmode
      simp [TimeView.sc, hset, CircBuf.putLST]
    · rw [if_neg he] at hview
      simp only [he, Bool.false_eq_true, ↓reduceIte, hview]
      exact h.slot

end SettimeSite

/-! ### The MC half -/

namespace SettimeState

variable {t : SettimeState} {trig : LTimestamp}

theorem setTime_update (g : Global) : (t.setTime g trig).update = 0 := rfl

theorem setTime_ref (g : Global) (part : TimePart) : (t.setTime g trig).ref part = t.ref part := by
  unfold setTime
  cases part <;> simp only [ref] <;> split_ifs <;> rfl

theorem setTime_lstOff (g : Global) : (t.setTime g trig).lstOff =
    if t.update &&& liberaSettimeSt ≠ 0 then t.lstRef - t.scphi - trig.lst.time else t.lstOff := by
  unfold setTime
  by_cases hst : t.update &&& liberaSettimeSt = 0#32 <;>
    by_cases hmt : t.update &&& liberaSettimeMt = 0#32 <;>
      simp [hst, hmt, setLST, setLMT]

theorem setTime_lmt (g : Global) (trig : LTimestamp) (h : t.update &&& liberaSettimeMt ≠ 0) :
    (t.setTime g trig).lmtOff = (t.setLMT g trig).lmtOff ∧
      (t.setTime g trig).lmtOffPll = (t.setLMT g trig).lmtOffPll := by
  have hmt : ¬ t.update &&& liberaSettimeMt = 0#32 := h
  unfold setTime
  by_cases hst : t.update &&& liberaSettimeSt = 0#32 <;> simp [hst, hmt, setLST, setLMT]

theorem setTime_lmt_kept (g : Global) (h : ¬ t.update &&& liberaSettimeMt ≠ 0) :
    (t.setTime g trig).lmtOff = t.lmtOff ∧ (t.setTime g trig).lmtOffPll = t.lmtOffPll := by
  have hmt : t.update &&& liberaSettimeMt = 0#32 := not_not.1 h
  unfold setTime
  by_cases hst : t.update &&& liberaSettimeSt = 0#32 <;> simp [hst, hmt, setLST]

/-- The two partial offsets are those of the reference. -/
theorem setLMT_sum (g : Global) :
    (t.setLMT g trig).lmtOff + (t.setLMT g trig).lmtOffPll =
      t.lmtRef - t.mcphi - trig.lmt.time + t.lmtOffPll := by
  simp [setLMT]

/-- The offset that the driver adds is a multiple of the decimation. -/
theorem dvd_setLMT {g : Global} (hdfa : g.dfa ≠ 0) (hfits : g.d.toNat * g.dfa.toNat < 2 ^ 32) :
    g.d.toNat * g.dfa.toNat ∣ (t.setLMT g trig).lmtOff.toNat := by
  have hprod : ((g.d * g.dfa).setWidth 64).toNat = g.d.toNat * g.dfa.toNat := by
    rw [BitVec.toNat_setWidth, BitVec.toNat_mul, Nat.mod_eq_of_lt hfits]
    exact Nat.mod_eq_of_lt (hfits.trans (by decide))
  simp only [setLMT, hdfa, ne_eq, not_false_eq_true, ↓reduceIte]
  rw [← hprod]
  generalize (g.d * g.dfa).setWidth 64 = p
  generalize t.lmtRef - t.mcphi - trig.lmt.time + t.lmtOffPll = x
  have hle : x % p ≤ x := by
    rw [BitVec.le_def, BitVec.toNat_umod]
    exact Nat.mod_le _ _
  rw [BitVec.toNat_sub_of_le hle, BitVec.toNat_umod]
  exact Nat.dvd_sub_mod x.toNat

end SettimeState

namespace SettimeSite

variable {g : Global} {s : SettimeSite} {e : TrigEntry}

/-- The device after the MC half of a TRIGGER that finds SET. -/
theorem timeView_mc_set (he : e.isTrigger = true)
    (hmode : s.device.cfg.param .trigmode = trigmodeSet) :
    (s.device.mcEntry g e).timeView =
      { settime := s.device.settime.setTime g
          { s.device.timeView.buf.stamp s.device.timeView.buf.put with
            lmt := ⟨s.device.rawMc e, s.device.mcCount trigTrigger + 1⟩ }
        trigmode := trigmodeGet
        buf := s.device.timeView.buf.putLMT
          ⟨s.device.rawMc e, s.device.mcCount trigTrigger + 1⟩
        scCount := s.device.scCount trigTrigger
        mcCount := s.device.mcCount trigTrigger + 1 } := by
  have hview : s.device.timeView.trigmode = trigmodeSet := hmode
  rw [timeView_mcEntry, if_pos he, TimeView.mc, if_pos hview]
  rfl

/-- An MC half that finds another mode, or that is of other triggers, leaves the time alone. -/
theorem kept_mc (h : e.isTrigger = true → s.device.cfg.param .trigmode ≠ trigmodeSet) :
    (s.device.mcEntry g e).settime = s.device.settime ∧
      (s.device.mcEntry g e).cfg.param .trigmode = s.device.cfg.param .trigmode ∧
      (s.device.mcEntry g e).scCount trigTrigger = s.device.scCount trigTrigger := by
  have hview := timeView_mcEntry (g := g) (s := s.device) e
  by_cases he : e.isTrigger = true
  · have hmode : s.device.timeView.trigmode ≠ trigmodeSet := h he
    rw [if_pos he, TimeView.mc, if_neg hmode] at hview
    exact ⟨congrArg TimeView.settime hview, congrArg TimeView.trigmode hview,
      congrArg TimeView.scCount hview⟩
  · rw [if_neg he] at hview
    exact ⟨congrArg TimeView.settime hview, congrArg TimeView.trigmode hview,
      congrArg TimeView.scCount hview⟩

/-- The MC half of a timely TRIGGER finds SET exactly when something is armed. -/
theorem Consistent.mode_iff (h : s.Consistent) (ht : s.Timely (.mc e))
    (he : e.isTrigger = true) :
    s.device.cfg.param .trigmode = trigmodeSet ↔ ∃ part, (s.armed part).isSome := by
  rw [h.mode, or_iff_left]
  rintro ⟨a, ha, hmoded⟩
  rw [((ht he).1 a ha).1] at hmoded
  cases hmoded

theorem Consistent.mc (h : s.Consistent) (ht : s.Timely (.mc e)) :
    (s.step g (.mc e)).Consistent := by
  by_cases he : e.isTrigger = true
  · have hnot : ∀ a ∈ s.arming, a.moded = false := fun a ha => ((ht he).1 a ha).1
    by_cases hmode : s.device.cfg.param .trigmode = trigmodeSet
    · have hview := timeView_mc_set (g := g) he hmode
      have hsettime := congrArg TimeView.settime hview
      have htrigmode := congrArg TimeView.trigmode hview
      have hsc := congrArg TimeView.scCount hview
      simp only [TrigDevice.timeView] at hsettime htrigmode hsc
      refine ⟨?_, ?_, ?_, ?_, ?_, ?_⟩ <;>
        simp only [step, he, ↓reduceIte, hsettime, htrigmode, hsc]
      · intro part
        simp [SettimeState.setTime_update]
      · constructor
        · intro hset
          exact absurd hset (by decide)
        · rintro (⟨part, hpart⟩ | ⟨a, ha, hmoded⟩)
          · simp at hpart
          · rw [hnot a ha] at hmoded
            cases hmoded
      · simp
      · intro a ha
        rw [SettimeState.setTime_ref]
        exact h.copied a ha
      · exact h.counted
      · simp
    · obtain ⟨hsettime, htrigmode, hsc⟩ := kept_mc (g := g) (e := e) fun _ => hmode
      have hnone : ∀ part, s.armed part = none := fun part => by
        by_contra hsome
        exact hmode ((h.mode_iff ht he).2 ⟨part, Option.isSome_iff_ne_none.2 hsome⟩)
      refine ⟨?_, ?_, ?_, ?_, ?_, ?_⟩ <;>
        simp only [step, he, ↓reduceIte, hsettime, htrigmode, hsc]
      · intro part
        rw [h.flags part, hnone part]
      · rw [h.mode]
        simp [hnone]
      · simp
      · exact h.copied
      · exact h.counted
      · simp
  · obtain ⟨hsettime, htrigmode, hsc⟩ := kept_mc (g := g) (e := e) (s := s) fun h => absurd h he
    have hview := timeView_mcEntry (g := g) (s := s.device) e
    rw [if_neg he] at hview
    refine ⟨?_, ?_, ?_, ?_, ?_, ?_⟩ <;>
      simp only [step, he, Bool.false_eq_true, ↓reduceIte, hsettime, htrigmode, hsc, hview]
    · exact h.flags
    · exact h.mode
    · exact h.refs
    · exact h.copied
    · exact h.counted
    · exact h.slot

/-! ### The requests -/

theorem ref_setRef (t : SettimeState) (v : BitVec 64) (part : TimePart) :
    (t.setRef v part).ref part = v := by
  cases part <;> rfl

theorem ref_setRef_of_ne (t : SettimeState) (v : BitVec 64) {part part' : TimePart}
    (h : part' ≠ part) : (t.setRef v part').ref part = t.ref part := by
  cases part <;> cases part' <;> first | rfl | exact absurd rfl h

theorem update_setRef (t : SettimeState) (v : BitVec 64) (part : TimePart) :
    (t.setRef v part).update = t.update := by
  cases part <;> rfl

theorem ref_setPhi (t : SettimeState) (v : BitVec 64) (part part' : TimePart) :
    (t.setPhi v part).ref part' = t.ref part' := by
  cases part <;> cases part' <;> rfl

theorem update_setPhi (t : SettimeState) (v : BitVec 64) (part : TimePart) :
    (t.setPhi v part).update = t.update := by
  cases part <;> rfl

theorem Consistent.copy (h : s.Consistent) {part : TimePart} (ref : BitVec 64)
    (hidle : s.arming = none) : (s.step g (.copy part ref)).Consistent := by
  refine ⟨?_, ?_, ?_, ?_, h.counted, h.slot⟩ <;>
    simp only [step, setTimeTo, Option.mem_def, Option.some.injEq, forall_eq']
  · intro part'
    rw [update_setRef]
    exact h.flags part'
  · have hmode := h.mode
    simp only [hidle, Option.mem_def, reduceCtorEq, false_and, exists_false, or_false] at hmode
    rw [hmode]
    simp
  · intro part' ref' harmed hne
    rw [ref_setRef_of_ne _ _ hne]
    exact h.refs part' ref' harmed (by simp [hidle])
  · exact ref_setRef _ _ _

theorem Consistent.moded (h : s.Consistent) {a : Arming} (ha : a ∈ s.arming) :
    (s.step g .mode).Consistent := by
  have harming : s.arming = some a := ha
  refine ⟨h.flags, ?_, ?_, ?_, h.counted, h.slot⟩ <;>
    simp only [step, harming, Option.map_some, Option.mem_def, Option.some.injEq, forall_eq',
      exists_eq_left']
  · simp [CfgDevice.mirror]
  · exact fun part ref harmed hne => h.refs part ref harmed (by simpa [harming] using hne)
  · exact h.copied a ha

/-- The flags of the two parts have no bit in common. -/
theorem arm_flag (update : Word) (part part' : TimePart) :
    (update ||| part.flag) &&& part'.flag ≠ 0 ↔ update &&& part'.flag ≠ 0 ∨ part' = part := by
  have hdistrib : (update ||| part.flag) &&& part'.flag =
      update &&& part'.flag ||| part.flag &&& part'.flag := by
    ext i
    simp [Bool.and_or_distrib_right]
  rw [hdistrib]
  rcases eq_or_ne part' part with rfl | hne
  · have hself : part'.flag &&& part'.flag ≠ 0 := by cases part' <;> decide
    have hor : update &&& part'.flag ||| part'.flag &&& part'.flag ≠ 0 := fun hzero =>
      hself (BitVec.or_eq_zero_iff.1 hzero).2
    simp only [or_true, iff_true]
    exact hor
  · have hcross : part.flag &&& part'.flag = 0 := by
      cases part <;> cases part' <;> first | rfl | exact absurd rfl hne
    rw [hcross]
    simp [hne]

theorem Consistent.arm (h : s.Consistent) {a : Arming} (ha : a ∈ s.arming)
    (hmoded : a.moded = true) : (s.step g .arm).Consistent := by
  have harming : s.arming = some a := ha
  have hkept : ∀ part, ({ s.device.settime with
      update := s.device.settime.update ||| a.part.flag } : SettimeState).ref part =
        s.device.settime.ref part := fun part => by cases part <;> rfl
  refine ⟨?_, ?_, ?_, ?_, ?_, ?_⟩ <;> simp only [step, harming, setTimeTo]
  · intro part
    rw [arm_flag, h.flags part]
    rcases eq_or_ne part a.part with rfl | hne
    · simp
    · simp [hne]
  · have hset := h.mode.2 (.inr ⟨a, ha, hmoded⟩)
    exact iff_of_true hset (.inl ⟨a.part, by simp⟩)
  · intro part ref harmed _
    rw [hkept]
    rcases eq_or_ne part a.part with rfl | hne
    · rw [Function.update_self, Option.some.injEq] at harmed
      rw [h.copied a ha, harmed]
    · rw [Function.update_of_ne hne] at harmed
      exact h.refs part ref harmed (by simpa [harming] using hne.symm)
  · simp
  · exact h.counted
  · exact h.slot

theorem Consistent.phi (h : s.Consistent) (part : TimePart) (phi : BitVec 64) :
    (s.step g (.phi part phi)).Consistent := by
  refine ⟨?_, h.mode, ?_, ?_, h.counted, h.slot⟩ <;>
    simp only [step, setTimeTo, update_setPhi, ref_setPhi]
  · exact h.flags
  · exact h.refs
  · exact h.copied

/-- **Each move of a timely run keeps the site consistent.** -/
theorem Consistent.step (h : s.Consistent) {m : SettimeMove} (hproper : s.Proper g m)
    (htimely : s.Timely m) : (s.step g m).Consistent := by
  cases m with
  | sc e => exact h.sc e
  | mc e => exact h.mc htimely
  | copy part ref => exact h.copy ref hproper.1
  | mode =>
    obtain ⟨a, ha, -⟩ := hproper
    exact h.moded ha
  | arm =>
    obtain ⟨a, ha, hmoded⟩ := hproper
    exact h.arm ha hmoded
  | phi part phi => exact h.phi part phi

/-! ## What a timely trigger applies -/

/-- A reference that is armed at a timely TRIGGER is the one in the device. -/
theorem Consistent.ref_eq (h : s.Consistent) (ht : s.Timely (.mc e)) (he : e.isTrigger = true)
    {part : TimePart} {ref : BitVec 64} (harmed : s.armed part = some ref) :
    s.device.settime.ref part = ref := by
  refine h.refs part ref harmed fun a ha hpart => ?_
  have hnone := ((ht he).1 a ha).2
  rw [hpart, harmed] at hnone
  cases hnone

/-- What is in the slot is the raw counter of this same TRIGGER. -/
theorem Consistent.slot_eq (h : s.Consistent) (ht : s.Timely (.mc e)) (he : e.isTrigger = true)
    (harmed : (s.armed .st).isSome) :
    s.rawLst[s.device.mcCount trigTrigger]? =
      some (s.device.timeView.buf.stamp s.device.timeView.buf.put).lst.time := by
  obtain ⟨hhalf, hcount⟩ := (ht he).2 harmed
  rw [← h.slot hhalf, List.getLast?_eq_getElem?, h.counted, hcount, Nat.add_sub_cancel]

theorem Consistent.appliesSt (h : s.Consistent) (ht : s.Timely (.mc e))
    (he : e.isTrigger = true) (hmode : s.device.cfg.param .trigmode = trigmodeSet) :
    s.AppliesSt (s.device.mcEntry g e).settime := by
  have hsettime := congrArg TimeView.settime (timeView_mc_set (g := g) he hmode)
  simp only [TrigDevice.timeView] at hsettime
  rw [hsettime, AppliesSt, SettimeState.setTime_lstOff]
  cases harmed : s.armed .st with
  | none =>
    have hflag : ¬ s.device.settime.update &&& liberaSettimeSt ≠ 0 := fun hset => by
      have hsome := (h.flags .st).1 hset
      simp [harmed] at hsome
    exact if_neg hflag
  | some ref =>
    have hflag : s.device.settime.update &&& liberaSettimeSt ≠ 0 :=
      (h.flags .st).2 (by simp [harmed])
    have href : s.device.settime.lstRef = ref := h.ref_eq ht he harmed
    refine ⟨_, h.slot_eq ht he (by simp [harmed]), ?_⟩
    rw [if_pos hflag, href]
    simp only [TrigDevice.timeView]
    rw [add_comm, sub_add_cancel]

theorem Consistent.appliesMt (h : s.Consistent) (ht : s.Timely (.mc e))
    (he : e.isTrigger = true) (hmode : s.device.cfg.param .trigmode = trigmodeSet)
    (hfits : g.d.toNat * g.dfa.toNat < 2 ^ 32) :
    s.AppliesMt g (s.device.rawMc e) (s.device.mcEntry g e).settime := by
  have hsettime := congrArg TimeView.settime (timeView_mc_set (g := g) he hmode)
  simp only [TrigDevice.timeView] at hsettime
  rw [hsettime, AppliesMt]
  cases harmed : s.armed .mt with
  | none =>
    have hflag : ¬ s.device.settime.update &&& liberaSettimeMt ≠ 0 := fun hset => by
      have hsome := (h.flags .mt).1 hset
      simp [harmed] at hsome
    exact SettimeState.setTime_lmt_kept g hflag
  | some ref =>
    have hflag : s.device.settime.update &&& liberaSettimeMt ≠ 0 :=
      (h.flags .mt).2 (by simp [harmed])
    have href : s.device.settime.lmtRef = ref := h.ref_eq ht he harmed
    dsimp only
    rw [(SettimeState.setTime_lmt g _ hflag).1, (SettimeState.setTime_lmt g _ hflag).2]
    refine ⟨?_, fun hdfa => SettimeState.dvd_setLMT hdfa hfits⟩
    rw [SettimeState.setLMT_sum, href]

/-- **A timely move applies what was armed, and nothing else.** -/
theorem Consistent.applies (h : s.Consistent) {m : SettimeMove} (ht : s.Timely m)
    (hfits : g.d.toNat * g.dfa.toNat < 2 ^ 32) : s.Applies g m := by
  cases m with
  | mc e =>
    by_cases he : e.isTrigger = true
    · simp only [Applies, he, ↓reduceIte]
      by_cases hmode : s.device.cfg.param .trigmode = trigmodeSet
      · exact ⟨h.appliesSt ht he hmode, h.appliesMt ht he hmode hfits⟩
      · have hnone : ∀ part, s.armed part = none := fun part => by
          by_contra hsome
          exact hmode ((h.mode_iff ht he).2 ⟨part, Option.isSome_iff_ne_none.2 hsome⟩)
        have hkept := (kept_mc (g := g) (e := e) fun _ => hmode).1
        simp only [SettimeSite.step, AppliesSt, AppliesMt, hnone, hkept, and_self]
    · simp only [Applies, he, Bool.false_eq_true, ↓reduceIte]
      exact (kept_mc (g := g) (s := s) fun h => absurd h he).1
  | sc e =>
    have hkept := settime_scEntry s.device e
    simp only [Applies, SettimeSite.step, hkept, and_self]
  | copy part ref => cases part <;> exact ⟨rfl, rfl, rfl⟩
  | mode => exact ⟨rfl, rfl, rfl⟩
  | arm =>
    simp only [Applies, SettimeSite.step]
    split <;> exact ⟨rfl, rfl, rfl⟩
  | phi part phi => cases part <;> exact ⟨rfl, rfl, rfl⟩

/-- **Every request is applied by the next trigger, with the counters of that trigger.** In every
run in which the SC half that precedes an armed MC half is that of the same TRIGGER and found SET,
and in which no MC half falls between the assignments of a request, each TRIGGER applies exactly
what was armed since the one before. -/
theorem settime_applied (g : Global) (hfits : g.d.toNat * g.dfa.toNat < 2 ^ 32) (cfg : CfgDevice)
    (hmode : cfg.param .trigmode = trigmodeGet) (ms : List SettimeMove)
    (hproper : Along (step g) (Proper g) (start cfg) ms)
    (htimely : Along (step g) Timely (start cfg) ms) :
    Along (step g) (Applies g) (start cfg) ms := by
  exact (hproper.and htimely).of_invariant (start_consistent hmode)
    (fun _ _ hs hm => hs.applies hm.2 hfits) fun _ _ hs hm => hs.step hm.1 hm.2

/-- A request for `ref`, as its three assignments. -/
def request (part : TimePart) (ref : BitVec 64) : List SettimeMove := [.copy part ref, .mode, .arm]

/-- A decimation, and a configuration device as it was loaded, but for the other parameters. -/
def decimation : Global := ⟨0x01000000, 500, 100, 3, 1000, 1000, 1000⟩

def loadedMode : CfgDevice := ⟨fun _ => trigmodeGet, fun _ => 0, [], false⟩

/-- Both times are requested, and a TRIGGER comes. -/
def bothRequested : List SettimeMove :=
  request .st 1000 ++ request .mt 70000 ++ [.sc ⟨0x40000000, 100⟩, .mc ⟨0x40000000, 40⟩]

theorem settime_applied_both :
    Along (step decimation) (Applies decimation) (start loadedMode) bothRequested := by
  have hfits : decimation.d.toNat * decimation.dfa.toNat < 2 ^ 32 := by decide
  have hproper : Along (step decimation) (Proper decimation) (start loadedMode) bothRequested := by
    decide +kernel
  have htimely : Along (step decimation) Timely (start loadedMode) bothRequested := by
    decide +kernel
  exact settime_applied decimation hfits loadedMode rfl bothRequested hproper htimely

/-- A system time was set, the next TRIGGER is half way, and another system time is requested: the
SC half has stored a stamp, with the first offset in it. -/
def betweenHalves : List SettimeMove :=
  request .st 1000 ++ [.sc ⟨0x40000000, 100⟩, .mc ⟨0x40000000, 40⟩, .sc ⟨0x40000000, 200⟩] ++
    request .st 5000

theorem settime_between_halves :
    ¬ ∀ (g : Global) (cfg : CfgDevice) (ms : List SettimeMove), g.d.toNat * g.dfa.toNat < 2 ^ 32 →
      cfg.param .trigmode = trigmodeGet → Along (step g) (Proper g) (start cfg) ms →
        Along (step g) (Applies g) (start cfg) ms := by
  intro h
  have hfits : decimation.d.toNat * decimation.dfa.toNat < 2 ^ 32 := by decide
  have hproper : Along (step decimation) (Proper decimation) (start loadedMode)
      (betweenHalves ++ [.mc ⟨0x40000000, 80⟩]) := by decide +kernel
  have hrun := h decimation loadedMode _ hfits rfl hproper
  obtain ⟨happlies, -⟩ := (along_append.1 hrun).2
  have he : TrigEntry.isTrigger ⟨0x40000000, 80⟩ = true := by decide
  generalize hs : betweenHalves.foldl (step decimation) (start loadedMode) = s at happlies
  have harmed : s.armed .st = some 5000 := by
    rw [← hs]
    decide +kernel
  have hraw : s.rawLst[s.device.mcCount trigTrigger]? = some 200 := by
    rw [← hs]
    decide +kernel
  have hphi : s.device.settime.scphi = 0 := by
    rw [← hs]
    decide +kernel
  have hoff : (s.device.mcEntry decimation ⟨0x40000000, 80⟩).settime.lstOff = 3900 := by
    rw [← hs]
    decide +kernel
  simp only [Applies, he, ↓reduceIte, AppliesSt, harmed, hraw, hphi, SettimeSite.step, hoff]
    at happlies
  obtain ⟨⟨raw, hmem, hsum⟩, -⟩ := happlies
  obtain rfl := Option.some.inj hmem
  revert hsum
  decide

end SettimeSite

end LiberaDaq.Kernel
