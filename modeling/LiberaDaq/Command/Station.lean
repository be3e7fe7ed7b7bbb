import LiberaDaq.Command.Acquire
import LiberaDaq.Driver.History
import LiberaDaq.Interaction.Layer

/-!
# The command on top of the driver

The acquire command runs in a control unit that holds one driver. `driverImpl` serves the calls of
the command from the driver, and a `Station` is the command object together with that driver. The
scheduler calls `setHandler` with a request at any time, and `acquireHandler` only while the command
is live: its running property is `NORMAL` and no handler threw.
-/

namespace LiberaDaq

open Cspi Interaction

/-- The value an `iop` returned. Only SETTIME can throw in its place. -/
def Outcome.code : Outcome → ℤ
  | .ret rc => rc
  | .outOfRange => 0

/-- The driver as the implementation of the calls of the command. -/
def driverImpl : Impl DriverCall DriverAns DrvCall DrvAns Driver
  | .iop r, d => d.iop r >>= fun x => pure ((x.1.code, x.2.1), x.2.2)
  | .read buffer addr bcount, d => d.read buffer addr bcount >>= fun x => pure (x, d)

/-- The calls that are left when the driver serves those of the command. -/
abbrev UnitCall := DrvCall ⊕ FrameCall

abbrev UnitAns : UnitCall → Type := Answers DrvAns FrameAns

/-- The command with the driver below it. -/
def unitImpl : Impl CmdCall CmdAns UnitCall UnitAns Driver := Prog.beside driverImpl

/-- A command object and the driver it uses. `threw` says that its last handler threw. -/
structure Station where
  cmd : AcquireCmd
  driver : Driver
  threw : Bool

/-- The scheduler goes on calling `acquireHandler`. -/
def Station.live (s : Station) : Prop := s.cmd.running = .normal ∧ s.threw = false

instance (s : Station) : Decidable s.live := inferInstanceAs (Decidable (_ ∧ _))

/-- What happens to a command: a new request, or a turn of the scheduler. -/
inductive StationOp
  | set (r : Request)
  | acquire
  deriving DecidableEq, Repr

/-- The station that a handler leaves. -/
def Station.leave (x : (Exit × AcquireCmd) × Driver) : Exit × Station :=
  (x.1.1, { cmd := x.1.2, driver := x.2, threw := x.1.1 ≠ .return })

/-- The operations of a station. -/
def Station.step : StationOp → Station → Prog UnitCall UnitAns (Exit × Station)
  | .set r, s => (s.cmd.setHandler r).interp unitImpl s.driver >>= fun x => pure (Station.leave x)
  | .acquire, s =>
    if s.live then
      s.cmd.acquireHandler.interp unitImpl s.driver >>= fun x => pure (Station.leave x)
    else pure (.return, s)

/-- A call of a station with its answer. -/
abbrev UnitEvent := Event UnitCall UnitAns

/-- A move of a station. -/
abbrev StationMove := Move StationOp Exit Station UnitEvent

/-! ## A calm environment -/

/-- The attribute cache grants every request. -/
def calmFrame : (c : FrameCall) → Option (FrameAns c)
  | .getAccessor => some true
  | .resize _ _ => some true
  | .getRWPtr _ => some true
  | .now => some 0
  | .fault => none

/-- The environment in which nothing goes wrong. -/
def calm : Handler UnitCall UnitAns Unit
  | .inl c, _ => calmDrv c ()
  | .inr c, _ => (calmFrame c).map (·, ())

/-- A command that was not started yet. -/
def calmCmd : AcquireCmd where
  mode := 0
  samples := 0
  loops := 0
  offset := 0
  acquireDuration := 0
  startAcquire := 0
  out :=
    { mode := 0, samples := 0, acquisition := 0, mt := 0, st := 0, error := 0, position := {}
      size := fun a => a.kind.size, content := fun _ _ => ⟨.dd, []⟩ }
  running := .exec

/-- That command on that driver. -/
def calmStation : Station := { cmd := calmCmd, driver := calmDriver, threw := false }

end LiberaDaq
