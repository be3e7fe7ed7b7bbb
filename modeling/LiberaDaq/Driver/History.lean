import LiberaDaq.Driver.Iop
import LiberaDaq.Interaction.History

/-!
# Histories of a driver

The commands of a control unit share one driver object, and call its methods in any order. A
`DriverMove` is one such call. The second part of the module is an environment in which nothing goes
wrong, for concrete histories.
-/

namespace LiberaDaq

open Cspi Interaction

/-- A call of a method of the driver. -/
inductive DriverOp
  | initIO
  | deinitIO
  | iop (r : IopRequest)
  | read (buffer : Buffer) (addr : ℤ) (bcount : Word)

/-- What a method gives back. -/
inductive DriverResult
  | code (rc : ℤ)
  | iop (o : Outcome) (out : IopOut)
  | read (r : ReadOutcome)

/-- The methods of the driver. -/
def Driver.step : DriverOp → Driver → DrvProg (DriverResult × Driver)
  | DriverOp.initIO, d => d.initIO >>= fun x => pure (.code x.1, x.2)
  | DriverOp.deinitIO, d => d.deinitIO >>= fun x => pure (.code x.1, x.2)
  | .iop r, d => d.iop r >>= fun x => pure (.iop x.1 x.2.1, x.2.2)
  | .read buffer addr bcount, d => d.read buffer addr bcount >>= fun x => pure (.read x, d)

/-- A call of the driver with its answer. -/
abbrev DrvEvent := Event DrvCall DrvAns

/-- The event of a call of the library. -/
abbrev cspiEvent (c : CspiCall) (x : CspiAns c) : DrvEvent := ⟨.inl c, x⟩

/-- The event of a call of the host. -/
abbrev hostEvent (c : HostCall) (x : HostAns c) : DrvEvent := ⟨.inr c, x⟩

/-- A call of a method, with the states of the driver before and after it. -/
abbrev DriverMove := Move DriverOp DriverResult Driver DrvEvent

section

variable {m : DriverMove}

theorem move_initIO (h : m.Valid Driver.step) (hop : m.op = DriverOp.initIO) :
    ∃ rc, m.result = .code rc ∧ m.before.initIO.Runs m.events (rc, m.after) := by
  unfold Move.Valid at h
  rw [hop] at h
  obtain ⟨⟨rc, d'⟩, h, he⟩ := Prog.runs_bind_pure.1 h
  obtain ⟨hres, rfl⟩ := Prod.mk.inj he
  exact ⟨rc, hres.symm, h⟩

theorem move_deinitIO (h : m.Valid Driver.step) (hop : m.op = DriverOp.deinitIO) :
    ∃ rc, m.result = .code rc ∧ m.before.deinitIO.Runs m.events (rc, m.after) := by
  unfold Move.Valid at h
  rw [hop] at h
  obtain ⟨⟨rc, d'⟩, h, he⟩ := Prog.runs_bind_pure.1 h
  obtain ⟨hres, rfl⟩ := Prod.mk.inj he
  exact ⟨rc, hres.symm, h⟩

theorem move_iop {q : IopRequest} (h : m.Valid Driver.step) (hop : m.op = .iop q) :
    ∃ o out, m.result = .iop o out ∧ (m.before.iop q).Runs m.events (o, out, m.after) := by
  unfold Move.Valid at h
  rw [hop] at h
  obtain ⟨⟨o, out, d'⟩, h, he⟩ := Prog.runs_bind_pure.1 h
  obtain ⟨hres, rfl⟩ := Prod.mk.inj he
  exact ⟨o, out, hres.symm, h⟩

theorem move_read {buffer : Buffer} {addr : ℤ} {n : Word} (h : m.Valid Driver.step)
    (hop : m.op = .read buffer addr n) :
    ∃ r, m.result = .read r ∧ (m.before.read buffer addr n).Runs m.events r ∧
      m.after = m.before := by
  unfold Move.Valid at h
  rw [hop] at h
  obtain ⟨r, h, he⟩ := Prog.runs_bind_pure.1 h
  obtain ⟨hres, hafter⟩ := Prod.mk.inj he
  exact ⟨r, hres.symm, h, hafter.symm⟩

end

/-! ## A calm environment -/

/-- The library answers every call with success, and a read with all the atoms asked for. -/
def calmCspi : (c : CspiCall) → CspiAns c
  | .setlibparam _ => cspiOk
  | .allochandle .env _ => (cspiOk, .env)
  | .allochandle .con _ => (cspiOk, .con 1)
  | .freehandle _ _ => cspiOk
  | .setenvparam _ p _ => (cspiOk, p)
  | .getenvparam _ p _ => (cspiOk, p)
  | .setconparam _ _ _ => cspiOk
  | .connect _ => cspiOk
  | .disconnect _ => cspiOk
  | .seek _ _ _ => cspiOk
  | .read _ _ n => ⟨cspiOk, n, []⟩
  | .get _ _ => (cspiOk, [])
  | .gettimestamp _ => (cspiOk, {})
  | .settime _ _ _ => cspiOk

/-- Uninitialised memory that holds zeros. -/
def zeroEnv : EnvParams := { val := fun _ => 0, pllStatus := ⟨0, 0⟩, frev := 0 }

/-- The trigger comes at once, and no time passes. -/
def calmHost : (c : HostCall) → Option (HostAns c)
  | .timedwaits => some [(0, eventTrigget)]
  | .hang => none
  | .uninitEnv => some zeroEnv
  | .uninitTs => some {}
  | .strptime _ => some none
  | .mktime _ => some 0

/-- The environment of the driver in which nothing goes wrong. -/
def calmDrv : Handler DrvCall DrvAns Unit
  | .inl c, _ => some (calmCspi c, ())
  | .inr c, _ => (calmHost c).map (·, ())

/-- A driver that was constructed in memory full of zeros. -/
def freshDriver : Driver :=
  Driver.construct
    { driverMode := 0, superuser := 0, ep := zeroEnv, phase := 0, datasize := 0
      p := { mode := .unknown, handler := none, eventMask := 0 } }

/-- That driver once it was initialised. -/
def calmDriver : Driver :=
  { freshDriver with
    envHandle := .env, conHandle := .con 1
    cfg := { freshDriver.cfg with operation := .init, atomCount := 1 } }

end LiberaDaq
