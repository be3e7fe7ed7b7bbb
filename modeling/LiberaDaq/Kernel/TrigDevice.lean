import LiberaDaq.Kernel.CfgInit
import LiberaDaq.Kernel.Rings
import LiberaDaq.Kernel.Waits

/-!
# The triggers of the event device

The FPGA keeps the time stamps of the triggers in two FIFOs, one for each clock, which the handler
of that clock drains (`libera_sc_handler`, `libera_mc_handler`). An entry has the low bits of a
stamp and a bit for each trigger that it is of. The stamps of the TRIGGER and POST_MORTEM triggers
are kept in pairs, in a circular buffer for each: the SC handler writes the LST of the pair that
comes next, the MC handler writes the LMT and moves on. All others go to the FIFOs of their
triggers.
-/

namespace LiberaDaq.Kernel

open LiberaDaq.Cspi

/-! ## Pairs of time stamps -/

/-- `libera_hw_time_t`, with the trigger that the stamp is of, which the driver does not see. The
triggers of a kind are counted from `1`. -/
structure HwStamp where
  time : BitVec 64
  trigger : ℕ
  deriving DecidableEq, Repr

/-- `libera_Ltimestamp_t`. -/
structure LTimestamp where
  lst : HwStamp
  lmt : HwStamp
  deriving DecidableEq, Repr

/-- `struct libera_circbuf`. -/
structure CircBuf where
  stamp : ℕ → LTimestamp
  put : ℕ
  put_lt : put < trigLog

namespace CircBuf

/-- `flushCircBuf`. -/
def flush : CircBuf := ⟨fun _ => ⟨⟨0, 0⟩, ⟨0, 0⟩⟩, 0, zero_lt_trigLog⟩

/-- `putLSTtoCircBuf`. -/
def putLST (q : CircBuf) (lst : HwStamp) : CircBuf :=
  { q with stamp := Function.update q.stamp q.put { q.stamp q.put with lst := lst } }

/-- `putLMTtoCircBuf`. -/
def putLMT (q : CircBuf) (lmt : HwStamp) : CircBuf where
  stamp := Function.update q.stamp q.put { q.stamp q.put with lmt := lmt }
  put := (q.put + 1) &&& trigLogMask
  put_lt := and_trigLogMask_lt _

/-- `getFromCircBuf`. The index before the first one is the last one. -/
def getFrom (q : CircBuf) : LTimestamp := q.stamp ((q.put + trigLog - 1) &&& trigLogMask)

end CircBuf

/-! ## The device -/

/-- `LIBERA_SETTIME_ST` and `LIBERA_SETTIME_MT`. -/
def liberaSettimeSt : Word := 1

def liberaSettimeMt : Word := 2

/-- `libera_settime_t`. -/
structure SettimeState where
  update : Word
  lstRef : BitVec 64
  lstOff : BitVec 64
  scphi : BitVec 64
  lmtRef : BitVec 64
  lmtOffAll : BitVec 64
  lmtOff : BitVec 64
  lmtOffPll : BitVec 64
  mcphi : BitVec 64
  deriving DecidableEq, Repr

/-- A pair as it was stored, with the trigger whose LST was written to the buffer last. -/
structure StoredPair where
  pair : LTimestamp
  lastLst : ℕ

/-- The triggers in `struct libera_event_device`, with the configuration device, and the books of
what happened so far: how many stamps of each trigger each handler has come to, and what it has
stored. `frozenOut` counts the MC stamps of POST_MORTEM that came while the buffer was frozen. -/
structure TrigDevice where
  cfg : CfgDevice
  pairedTimestamps : ℕ → CircBuf
  scTimestamps : ℕ → LiberaFifo
  mcTimestamps : ℕ → LiberaFifo
  scTime : BitVec 64
  mcTime : BitVec 64
  settime : SettimeState
  scCount : ℕ → ℕ
  mcCount : ℕ → ℕ
  lastLst : ℕ → ℕ
  stored : ℕ → List StoredPair
  frozenOut : ℕ

/-- An entry of a FIFO of the FPGA: the registers `T_SC_STATUSL` and `T_SC_STATUSH`, or those of
MC. -/
structure TrigEntry where
  tl : Word
  th : Word
  deriving DecidableEq, Repr

/-- `SELF_INC_TRIGGER` is set. -/
def TrigEntry.selfInc (e : TrigEntry) : Bool := e.tl.getLsbD 31

/-- The triggers that an entry is of, in the order in which the handlers come to them. -/
def TrigEntry.triggers (e : TrigEntry) : List ℕ :=
  (List.range 9).filter fun i => e.tl.getLsbD (22 + i)

/-- The time stamp of an entry, for the high bits that the driver counts. -/
def TrigEntry.stamp (e : TrigEntry) (time : BitVec 64) : BitVec 64 :=
  (e.th &&& 0x3FFFFFF).setWidth 64 ||| (time &&& 0xFFFFFFFFFC000000)

/-- `T_TRIG_SC_PRESCALER` and `T_TRIG_MC_PRESCALER`. -/
def trigScPrescaler : ℕ := 5

def trigMcPrescaler : ℕ := 6

namespace TrigDevice

/-- The state of the driver when it was loaded. -/
def start (cfg : CfgDevice) : TrigDevice where
  cfg := cfg
  pairedTimestamps _ := .flush
  scTimestamps _ := ⟨fun _ => 0, 0, 0, zero_lt_trigLog, zero_lt_trigLog⟩
  mcTimestamps _ := ⟨fun _ => 0, 0, 0, zero_lt_trigLog, zero_lt_trigLog⟩
  scTime := 0
  mcTime := 0
  settime := ⟨0, 0, 0, 0, 0, 0, 0, 0, 0⟩
  scCount _ := 0
  mcCount _ := 0
  lastLst _ := 0
  stored _ := []
  frozenOut := 0

/-! ## The SC handler -/

/-- A stamp of a trigger has come. -/
def countSc (s : TrigDevice) (i : ℕ) : TrigDevice :=
  { s with scCount := Function.update s.scCount i (s.scCount i + 1) }

/-- `putLSTtoCircBuf(&event->paired_timestamps[i], ..)`. -/
def putLST (s : TrigDevice) (i : ℕ) (time : BitVec 64) : TrigDevice :=
  { s with
    pairedTimestamps :=
      Function.update s.pairedTimestamps i ((s.pairedTimestamps i).putLST ⟨time, s.scCount i⟩)
    lastLst := Function.update s.lastLst i (s.scCount i) }

/-- `putToFIFO(&event->sc_timestamps[i], ..)`. -/
def putSc (s : TrigDevice) (i : ℕ) (time : BitVec 64) : TrigDevice :=
  { s with scTimestamps := Function.update s.scTimestamps i (putToFIFO (s.scTimestamps i) time).2 }

/-- `libera_SCtrig_specific`. -/
def scTrigSpecific (s : TrigDevice) (stamp stampRaw : BitVec 64) (i : ℕ) : TrigDevice :=
  if i = trigMcPrescaler ∨ i = trigScPrescaler then s.putSc i stampRaw
  else if i = trigPostMortem then if s.cfg.pmFreezed then s else s.putLST i stamp
  else s.putSc i stamp

/-- What `libera_sc_handler` does for a trigger. -/
def scTrigger (stamp stampRaw : BitVec 64) (s : TrigDevice) (i : ℕ) : TrigDevice :=
  let s := s.countSc i
  if i = trigTrigger then
    if s.cfg.param .trigmode = trigmodeSet then s.putLST i stampRaw else s.putLST i stamp
  else s.scTrigSpecific stamp stampRaw i

/-- What `libera_sc_handler` does for an entry. -/
def scEntry (s : TrigDevice) (e : TrigEntry) : TrigDevice :=
  let s := if e.selfInc then { s with scTime := s.scTime + 0x4000000 } else s
  let stampRaw := e.stamp s.scTime
  e.triggers.foldl (scTrigger (stampRaw + s.settime.lstOff) stampRaw) s

/-- `libera_sc_handler`, for the entries that it finds. -/
def scHandler (s : TrigDevice) (es : List TrigEntry) : TrigDevice := es.foldl scEntry s

/-! ## The MC handler -/

/-- `libera_set_LST`. -/
def setLST (s : TrigDevice) : TrigDevice :=
  let trig := (s.pairedTimestamps trigTrigger).getFrom
  { s with settime :=
      { s.settime with lstOff := s.settime.lstRef - s.settime.scphi - trig.lst.time } }

/-- `libera_set_LMT`, but for the start of the SA data. -/
def setLMT (g : Global) (s : TrigDevice) : TrigDevice :=
  let trig := (s.pairedTimestamps trigTrigger).getFrom
  let offAll := s.settime.lmtRef - s.settime.mcphi - trig.lmt.time + s.settime.lmtOffPll
  let offPll := if g.dfa ≠ 0 then offAll % (g.d * g.dfa).setWidth 64 else 0
  { s with settime :=
      { s.settime with lmtOffAll := offAll, lmtOffPll := offPll, lmtOff := offAll - offPll } }

/-- `libera_set_time`. -/
def setTime (g : Global) (s : TrigDevice) : TrigDevice :=
  let s := if s.settime.update &&& liberaSettimeSt ≠ 0 then s.setLST else s
  let s := if s.settime.update &&& liberaSettimeMt ≠ 0 then s.setLMT g else s
  { s with settime := { s.settime with update := 0 } }

def countMc (s : TrigDevice) (i : ℕ) : TrigDevice :=
  { s with mcCount := Function.update s.mcCount i (s.mcCount i + 1) }

/-- `putLMTtoCircBuf(&event->paired_timestamps[i], ..)`. -/
def putLMT (s : TrigDevice) (i : ℕ) (time : BitVec 64) : TrigDevice :=
  let q := s.pairedTimestamps i
  let lmt := ⟨time, s.mcCount i⟩
  { s with
    pairedTimestamps := Function.update s.pairedTimestamps i (q.putLMT lmt)
    stored := Function.update s.stored i
      (s.stored i ++ [⟨{ q.stamp q.put with lmt := lmt }, s.lastLst i⟩]) }

/-- `putToFIFO(&event->mc_timestamps[i], ..)`. -/
def putMc (s : TrigDevice) (i : ℕ) (time : BitVec 64) : TrigDevice :=
  { s with mcTimestamps := Function.update s.mcTimestamps i (putToFIFO (s.mcTimestamps i) time).2 }

/-- The POST_MORTEM branch of `libera_MCtrig_specific`. -/
def postMortem (s : TrigDevice) (i : ℕ) (stamp : BitVec 64) : TrigDevice :=
  if s.cfg.pmFreezed then { s with frozenOut := s.frozenOut + 1 }
  else
    let s := s.putLMT i stamp
    if s.cfg.param (.pm .mode) ≠ 0 then { s with cfg := { s.cfg with pmFreezed := true } } else s

/-- `libera_MCtrig_specific`. -/
def mcTrigSpecific (s : TrigDevice) (stamp stampRaw : BitVec 64) (i : ℕ) : TrigDevice :=
  if i = trigPostMortem then s.postMortem i stamp
  else if i = trigMcPrescaler then s.putMc i (stampRaw - s.settime.lmtOffPll)
  else s.putMc i stamp

/-- What `libera_mc_handler` does for a trigger. `libera_valid_trigger` refuses none. -/
def mcTrigger (g : Global) (stamp stampRaw : BitVec 64) (s : TrigDevice) (i : ℕ) : TrigDevice :=
  let s := s.countMc i
  if i = trigTrigger then
    if s.cfg.param .trigmode = trigmodeSet then
      let s := (s.putLMT i stampRaw).setTime g
      { s with cfg := s.cfg.mirror .trigmode trigmodeGet }
    else s.putLMT i stamp
  else s.mcTrigSpecific stamp stampRaw i

/-- What `libera_mc_handler` does for an entry. -/
def mcEntry (g : Global) (s : TrigDevice) (e : TrigEntry) : TrigDevice :=
  let s := if e.selfInc then { s with mcTime := s.mcTime + 0x4000000 } else s
  let stampRaw := e.stamp s.mcTime
  e.triggers.foldl (mcTrigger g (stampRaw + s.settime.lmtOff) stampRaw) s

/-- `libera_mc_handler`, for the entries that it finds. -/
def mcHandler (g : Global) (s : TrigDevice) (es : List TrigEntry) : TrigDevice :=
  es.foldl (mcEntry g) s

end TrigDevice

/-! ## Runs -/

/-- The steps at the device: an interrupt, and what processes do in between. `libera_interrupt` goes
round as long as there is something to do; in each round either handler may find any number of
entries. -/
inductive TrigAction
  | interrupt (rounds : List (List TrigEntry × List TrigEntry))
  | setCfg (idx : CfgIndex) (val : Word)
  /-- `LIBERA_EVENT_SET_ST` and `LIBERA_EVENT_SET_MT`. -/
  | setSt (lst : BitVec 64)
  | setMt (lmt : BitVec 64)
  /-- `LIBERA_EVENT_SET_SCPHI` and `LIBERA_EVENT_SET_MCPHI`. -/
  | setScphi (phi : BitVec 64)
  | setMcphi (phi : BitVec 64)

namespace TrigDevice

/-- A round of `libera_interrupt`: the SC handler comes before the MC handler. -/
def round (g : Global) (s : TrigDevice) (r : List TrigEntry × List TrigEntry) : TrigDevice :=
  (s.scHandler r.1).mcHandler g r.2

/-- One step at the device. -/
def step (g : Global) (s : TrigDevice) : TrigAction → TrigDevice
  | .interrupt rounds => rounds.foldl (round g) s
  | .setCfg idx val => { s with cfg := (s.cfg.setCfg g idx val).getD s.cfg }
  | .setSt lst =>
    { s with
      settime := { s.settime with lstRef := lst, update := s.settime.update ||| liberaSettimeSt }
      cfg := s.cfg.mirror .trigmode trigmodeSet }
  | .setMt lmt =>
    { s with
      settime := { s.settime with lmtRef := lmt, update := s.settime.update ||| liberaSettimeMt }
      cfg := s.cfg.mirror .trigmode trigmodeSet }
  | .setScphi phi => { s with settime := { s.settime with scphi := phi } }
  | .setMcphi phi => { s with settime := { s.settime with mcphi := phi } }

/-- The device after a number of steps. -/
def run (g : Global) (s : TrigDevice) (actions : List TrigAction) : TrigDevice :=
  actions.foldl (step g) s

end TrigDevice

end LiberaDaq.Kernel
