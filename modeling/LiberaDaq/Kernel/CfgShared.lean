import LiberaDaq.Interaction.Journal
import LiberaDaq.Kernel.RoundTrip

/-!
# The configuration device and its processes

Any number of processes call `cspi_setenvparam` and `cspi_getenvparam`, each with its own open file,
and nothing locks the configuration device for the time of a call: it takes one parameter after the
other. Meanwhile interlocks come in, the DSC server reports offsets, and processes open and close the
device. It takes settings only from the file that was opened first for writing.

A call in such company makes the settings that it would make alone, and no other process's settings
come in between. A call that reads has no such protection: it gets each parameter as the device had it
at a moment of the call, and they need not be of the same moment (`parameters_shared`).
-/

namespace LiberaDaq.Kernel

open LiberaDaq.Cspi LiberaDaq.Interaction

/-- `libera_ilk_handler_specific`. -/
def CfgDevice.ilkHandlerSpecific (d : CfgDevice) (status : Word) : CfgDevice :=
  d.mirror .ilkstatus (d.param .ilkstatus ||| status)

/-! ## The device and its processes -/

/-- What reaches the device besides the requests of the library: an interlock, the offsets of the DSC
server, and that it is opened and closed for writing. -/
inductive CfgSignal
  | interlock (status : Word)
  | bcdOffsets (x y : Word)
  | opened (f : File)
  | closed (f : File)

/-- The device can be opened for writing, or is busy. -/
abbrev SignalAns : CfgSignal → Type
  | .opened _ => Bool
  | _ => Unit

abbrev ShareCall := SysCall ⊕ CfgSignal

abbrev ShareAns : ShareCall → Type := Answers SysAns SignalAns

/-- The device, and the process and the file that it takes settings from. -/
structure SharedCfg (ι : Type) where
  dev : CfgDevice
  master : Option (ι × File)

variable {ι : Type} [DecidableEq ι]

/-- The device as a process finds it, with what `ebpp_toattn` makes of a gain. -/
def SharedCfg.seenBy (gains : Word → ℤ) (w : SharedCfg ι) (i : ι) : CfgWorld where
  dev := w.dev
  master := w.master.bind fun m => if m.1 = i then some m.2 else none
  gains := gains

/-- How the calls are answered to a process. -/
def shareServe (g : Global) (gains : Word → ℤ) (i : ι) : Serves ShareCall ShareAns (SharedCfg ι)
  | .inl c, x, w, w' => ∃ u, cfgServe g c x (w.seenBy gains i) u ∧ w' = { w with dev := u.dev }
  | .inr (.interlock status), _, w, w' => w' = { w with dev := w.dev.ilkHandlerSpecific status }
  | .inr (.bcdOffsets x y), _, w, w' => w' = { w with dev := w.dev.bcdOffsets x y }
  | .inr (.opened f), granted, w, w' =>
    (granted = true ↔ w.master = none) ∧
      w' = if granted then { w with master := some (i, f) } else w
  | .inr (.closed f), _, w, w' => w' = if w.master = some (i, f) then { w with master := none } else w

/-- The operations, each with the library of the process that makes it. -/
inductive ShareOp
  | set (l : Lib) (h : Handle) (p : EnvParams) (flags : Bitmask)
  | get (l : Lib) (h : Handle) (q : EnvParams) (flags : Bitmask)
  | signal (c : CfgSignal)

/-- The operations as programs; what a call leaves of the library is not followed up. -/
def shareSem : ShareOp → Prog ShareCall ShareAns (Option ParamResult)
  | .set l h p flags => do
    let (r, _) ← (l.setenvparam h p flags).liftLeft
    pure (some r)
  | .get l h q flags => do
    let (r, _) ← (l.getenvparam h q flags).liftLeft
    pure (some r)
  | .signal c => do
    let _ ← Prog.perform (C := ShareCall) (A := ShareAns) (.inr c)
    pure none

/-- The entries of the journal. -/
abbrev ShareEntry (ι : Type) := ι × Event ShareCall ShareAns

/-- The device with the journal. -/
abbrev ShareState (ι : Type) := SharedCfg ι × List (ShareEntry ι)

/-! ## What is expected of the operations -/

/-- The setting of a request that the device took. -/
def settingIn : Event ShareCall ShareAns → Option (CfgIndex × Word)
  | ⟨.inl (.setCfg _ idx val), taken⟩ => if taken then some (idx, val) else none
  | _ => none

/-- What was set in a part of the journal, by whom. -/
def settings (m : List (ShareEntry ι)) : List (ι × CfgIndex × Word) :=
  m.filterMap fun e => (settingIn e.2).map (e.1, ·)

/-- A call that sets makes the settings that it would make alone, and all of them if it returns
`CSPI_OK`; no one else sets anything meanwhile, unless it makes none. -/
structure SetLaw (g : Global) (gains : Word → ℤ) (i : ι) (l : Lib) (h : Handle) (p : EnvParams)
    (flags : Bitmask) (v : SharedCfg ι) (rc : ℤ) (m : List (ShareEntry ι)) : Prop where
  sent : (own i m).filterMap settingIn = if h = .env then
    callSettings g (v.seenBy gains i) l.env.fd l.decimation p flags else []
  whole : rc = cspiOk → h = .env ∧
    allTaken g (v.seenBy gains i) l.env.fd p flags (setMap l.decimation) ∧
    flags.hits envHealth = false ∧ flags.hits envFeature = false
  alone : (own i m).filterMap settingIn ≠ [] →
    settings m = ((own i m).filterMap settingIn).map (i, ·)

/-- A call that reads and returns `CSPI_OK` has each selected parameter as the device had it at a
moment of the call. -/
def GetLaw (g : Global) (gains : Word → ℤ) (i : ι) (flags : Bitmask) (v w : ShareState ι)
    (r : ParamResult) : Prop :=
  r.1 = cspiOk → ∀ e ∈ getMap, flags.hits e.mask = true → ∃ x : ShareState ι,
    Crowd.Moment (shareServe g gains) v w x ∧ r.2.val e.field = reading g (x.1.seenBy gains i) e

/-- What an operation does. -/
def ShareLaw (g : Global) (gains : Word → ℤ)
    (d : Done ι ShareOp (Option ParamResult) (ShareState ι)) : Prop :=
  match d.op, d.result with
  | .set l h p flags, some r => ∃ m, Crowd.Between (shareServe g gains) d.before d.after m ∧
      SetLaw g gains d.thread l h p flags d.before.1 r.1 m
  | .get _ _ _ flags, some r => GetLaw g gains d.thread flags d.before d.after r
  | _, _ => True

end LiberaDaq.Kernel
