import LiberaDaq.Driver.Config

/-!
# assign_time

`LiberaBrillianceCSPIDriver::assign_time` fills the stored time of the driver from a string
`[MT[.phase]]:[YYYYMMDDhhmm.ss]`. It sets the members and the mask bits as it goes, so what a
failure leaves behind is part of the definition.
-/

namespace LiberaDaq

open Cspi Interaction

/-! ## atoll -/

/-- `isspace`. -/
def isSpace (c : Char) : Bool := c = ' ' || ('\t' ≤ c && c ≤ '\r')

/-- The value of a list of decimal digits, continuing from `acc`. -/
def digitsVal (acc : ℕ) : List Char → ℕ
  | [] => acc
  | c :: s => if c.isDigit then digitsVal (acc * 10 + (c.toNat - '0'.toNat)) s else acc

/-- The nearest value of a `long long`. -/
def clampLongLong (n : ℤ) : ℤ := max (-2 ^ 63) (min n (2 ^ 63 - 1))

/-- `atoll`: white space, a sign and digits; the rest of the string is ignored. -/
def atoll (s : List Char) : ℤ :=
  match s.dropWhile isSpace with
  | '-' :: t => clampLongLong (-(digitsVal 0 t : ℤ))
  | '+' :: t => clampLongLong (digitsVal 0 t)
  | t => clampLongLong (digitsVal 0 t)

/-! ## The two components -/

/-- `s.substr(0, p)` and `s.substr(p + 1)` at the first `delim`, or `none` without one. -/
def splitAt (delim : Char) (s : List Char) : Option (List Char × List Char) :=
  match s.dropWhile (· ≠ delim) with
  | [] => none
  | _ :: t => some (s.takeWhile (· ≠ delim), t)

/-- The machine time and the phase that a nonempty first component gives. -/
def machineTime (s : List Char) : BitVec 64 × Word :=
  match splitAt '.' s with
  | none => (BitVec.ofInt 64 (atoll s), 0)
  | some (sMt, sPhase) =>
    (BitVec.ofInt 64 (atoll sMt), if sPhase ≠ [] then BitVec.ofInt 32 (atoll sPhase) else 0)

/-- The loop that puts a delimiter at the positions `p % 3 == 1` below `s.size() - 3`. -/
def insertDelims (s : List Char) (p : ℕ) : List Char :=
  if p + 3 < s.length then
    if p % 3 = 1 then insertDelims (s.insertIdx p ':') (p + 1) else insertDelims s (p + 1)
  else s
termination_by 2 * (s.length - p) + if p % 3 = 1 then 1 else 0
decreasing_by
  · rw [List.length_insertIdx_of_le_length (by omega)]
    split <;> omega
  · split <;> omega

/-- The string that is given to `strptime`; `none` when `insert` throws `std::out_of_range`. -/
def delimited (s : List Char) : Option (List Char) :=
  -- below three characters `s.size() - 3` wraps, and the first insertion is past the end
  if s.length < 3 then none else some (insertDelims s 4)

/-! ## The function -/

/-- What a call that can throw `std::out_of_range` ends with. -/
inductive Outcome
  | ret (rc : ℤ)
  | outOfRange
  deriving DecidableEq, Repr

/-- The part of `assign_time` for the second component. -/
def assignSt (s2 : List Char) (cfg : LiberaConfig) : DrvProg (Outcome × LiberaConfig) :=
  match delimited s2 with
  | none => pure (.outOfRange, cfg)
  | some t => do
    match ← host (.strptime t) with
    | none => pure (.ret (-1), cfg)
    | some tm =>
      let st ← host (.mktime tm)
      let cfg := { cfg with time := { cfg.time with st := st } }
      if st = -1 then pure (.ret (-2), cfg)
      else pure (.ret 0, { cfg with mask := cfg.mask ||| wantSetst })

/-- The part of `assign_time` for the first component. -/
def assignMt (s2 : List Char) (cfg : LiberaConfig) : LiberaConfig :=
  if s2 ≠ [] then
    { cfg with
      mask := cfg.mask ||| wantSetmt
      time := { cfg.time with mt := (machineTime s2).1, phase := (machineTime s2).2 } }
  else cfg

/-- `assign_time`. -/
def assignTime (s : List Char) (cfg : LiberaConfig) : DrvProg (Outcome × LiberaConfig) :=
  match splitAt ':' s with
  | none => pure (.ret (-4), cfg)
  | some (sMt, sSt) =>
    if sSt ≠ [] then assignSt sSt (assignMt sMt cfg) else pure (.ret 0, assignMt sMt cfg)

end LiberaDaq
