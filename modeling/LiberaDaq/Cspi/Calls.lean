import LiberaDaq.Cspi.Read
import LiberaDaq.Interaction.History

/-!
# The library in use

A process that uses the library makes calls, and its event thread hands the events it receives to
`signal_handler_hook`. `libStep` is one such step, and the histories of `libStep` are the lives of
the library.
-/

namespace LiberaDaq.Cspi

open LiberaDaq.Interaction

/-- `CSPI_EVENTHDR`. -/
structure EventHdr where
  id : Word
  param : Word
  deriving DecidableEq, Repr

/-- `CSPI_EVENT_CFG`. -/
def eventCfg : Word := 2

/-- The parameters whose announcement makes the cache out of date. -/
def hookParams : List ℕ :=
  [CfgIndex.kx.code, CfgIndex.ky.code, CfgIndex.xoffset.code, CfgIndex.yoffset.code,
    CfgIndex.qoffset.code, cfgLevel, cfgDsc, (CfgIndex.sr .cspiEnable).code,
    (CfgIndex.sr .averagingStop).code, (CfgIndex.sr .averageWindow).code,
    (CfgIndex.sr .start).code, (CfgIndex.sr .window).code, (CfgIndex.sp .threshold).code,
    (CfgIndex.sp .nBefore).code, (CfgIndex.sp .nAfter).code]

/-- `signal_handler_hook`. -/
def Lib.signalHandlerHook (l : Lib) (p : EventHdr) : Lib :=
  if p.id = eventCfg ∧ p.param.toNat ∈ hookParams then { l with dirty := true } else l

/-- What a process does with the library. -/
inductive LibOp
  | call (c : CspiCall)
  | deliver (p : EventHdr)

/-- The call by which a client has a connection call a handler for the events of a mask. -/
def LibOp.listen (p : ℕ) (mask : Bitmask) : LibOp :=
  .call (.setconparam (.con p) ⟨.dd, some 1, 0, mask, 0, 0⟩ (conHandler ||| conEventmask))

/-- A call with its answer. -/
abbrev LibResult := Option (Event CspiCall CspiAns)

/-- One step of the library. -/
def libStep (tf : Transform) : LibOp → Lib → LibProg (LibResult × Lib)
  | .call c, l => do
    let (x, l) ← cspiImpl tf c l
    pure (some ⟨c, x⟩, l)
  | .deliver p, l => pure (none, l.signalHandlerHook p)

/-- A step of the library with what the system answered. -/
abbrev LibMove := Move LibOp LibResult Lib SysEvent

end LiberaDaq.Cspi
