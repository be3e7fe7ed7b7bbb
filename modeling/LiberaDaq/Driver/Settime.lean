import LiberaDaq.Driver.IopRuns

/-!
# What SETTIME applies

A time string `[MT[.phase]]:[YYYYMMDDhhmm.ss]` names a machine time, a system time, both or neither.
`readTime` says what a string names, `AppliesTime` that a SETTIME hands exactly this to
`cspi_settime`. The driver keeps the mask bits and the times of earlier strings, also of those that
did not parse; `settime_contract` says which states they spoil.
-/

namespace LiberaDaq

open Cspi Interaction

/-! ## What a string says -/

/-- The components of a time string: machine time with its phase, and system time. -/
structure TimeSpec where
  mt : Option (BitVec 64 × Word)
  st : Option ℤ
  deriving DecidableEq, Repr

/-- The machine time of a string whose first component is `s`. -/
def readMt (s : List Char) : Option (BitVec 64 × Word) :=
  if s = [] then none else some (machineTime s)

/-- The system time of a string whose second component is `s`; `none` when it is not one. -/
def readSt (s : List Char) : DrvProg (Option (Option ℤ)) :=
  if s = [] then pure (some none)
  else match delimited s with
    | none => pure none
    | some t => do
      match ← host (.strptime t) with
      | none => pure none
      | some tm =>
        let st ← host (.mktime tm)
        pure (if st = -1 then none else some (some st))

/-- What a time string says; `none` when it does not parse. -/
def readTime (s : List Char) : DrvProg (Option TimeSpec) :=
  match splitAt ':' s with
  | none => pure none
  | some (sMt, sSt) => do
    let st ← readSt sSt
    pure (st.map fun st => ⟨readMt sMt, st⟩)

/-- The flags of `cspi_settime` for a machine time and a system time. -/
def timeFlags (mt st : Bool) : Bitmask := (if mt then timeMt else 0) ||| (if st then timeSt else 0)

/-- The arguments of `cspi_settime` are the components that are present, and no others. -/
structure TimeSpec.Passed (t : TimeSpec) (ts : SetTimestamp) (flags : Bitmask) : Prop where
  flags_eq : flags = timeFlags t.mt.isSome t.st.isSome
  mt_eq : ∀ m ∈ t.mt, (ts.mt, ts.phase) = m
  st_eq : ∀ s ∈ t.st, (ts.tvSec, ts.tvNsec) = (s, 0)

/-! ## The runs of SETTIME -/

/-- What `assign_time` leaves of a string that parses. -/
def TimeSpec.store (t : TimeSpec) (cfg : LiberaConfig) : LiberaConfig :=
  let cfg := match t.mt with
    | none => cfg
    | some m =>
      { cfg with mask := cfg.mask ||| wantSetmt, time := { cfg.time with mt := m.1, phase := m.2 } }
  match t.st with
  | none => cfg
  | some s => { cfg with mask := cfg.mask ||| wantSetst, time := { cfg.time with st := s } }

variable {s sMt sSt : List Char} {cfg cfg' : LiberaConfig} {o : Outcome} {tr : List DrvEvent}
  {d d' : Driver} {spec : Option TimeSpec} {ep : EnvParams} {out : IopOut}

/-- In the calls and answers of a SETTIME, the string says `spec`. -/
def SaysTime (s : List Char) (tr : List DrvEvent) (spec : Option TimeSpec) : Prop :=
  ∃ ep t₁ t₂, tr = hostEvent .uninitEnv ep :: (t₁ ++ t₂) ∧ (readTime s).Runs t₁ spec

theorem SaysTime.unique {spec' : Option TimeSpec} (h : SaysTime s tr spec)
    (h' : SaysTime s tr spec') : spec = spec' := by
  obtain ⟨ep, t₁, t₂, rfl, h⟩ := h
  obtain ⟨ep', t₁', t₂', ht, h'⟩ := h'
  exact (h.prefix_unique h' (List.cons.inj ht).2).2

end LiberaDaq
