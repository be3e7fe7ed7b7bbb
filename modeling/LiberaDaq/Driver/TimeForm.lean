import LiberaDaq.Driver.Settime
import Mathlib.Data.List.TakeWhile

/-!
# The form of a time string

`assign_time` is documented to read strings `[MT[.phase]]:[YYYYMMDDhhmm.ss]`. A `TimeText` is such a
string by its parts, `TimeText.text` writes it. `assign_time` itself looks at no character of the
first component beyond its leading number, and leaves the second one to `strptime` once it has put
separators into it. `assign_time_iff` says which strings it nevertheless reads as documented.
-/

namespace LiberaDaq

open Cspi Interaction

/-! ## strptime -/

/-- The value of a decimal digit. -/
def digitVal (c : Char) : ℕ := c.toNat - '0'.toNat

/-- Up to `n` further digits of a number, as long as it can still be below `hi`. -/
def numberLoop (hi : ℕ) : ℕ → ℕ → List Char → ℕ × List Char
  | n + 1, val, c :: s =>
    if val * 10 ≤ hi ∧ c.isDigit then numberLoop hi n (val * 10 + digitVal c) s else (val, c :: s)
  | _, val, s => (val, s)

/-- A number of at most `n + 1` digits from `lo` to `hi`, after blanks, and the rest of the
string. -/
def getNumber (lo hi n : ℕ) (s : List Char) : Option (ℕ × List Char) :=
  match s.dropWhile (· = ' ') with
  | [] => none
  | c :: s =>
    if c.isDigit then
      let r := numberLoop hi n (digitVal c) s
      if lo ≤ r.1 ∧ r.1 ≤ hi then some r else none
    else none

/-- One character, and the rest of the string. -/
def matchChar (c : Char) : List Char → Option (List Char)
  | [] => none
  | d :: s => if d = c then some s else none

/-- `strptime` with the format `%Y:%m:%d:%H:%M.%S`. What is left of the string does not matter. -/
def strptime (s : List Char) : Option Tm := do
  let (year, s) ← getNumber 0 9999 3 s
  let s ← matchChar ':' s
  let (mon, s) ← getNumber 1 12 1 s
  let s ← matchChar ':' s
  let (mday, s) ← getNumber 1 31 1 s
  let s ← matchChar ':' s
  let (hour, s) ← getNumber 0 23 1 s
  let s ← matchChar ':' s
  let (min, s) ← getNumber 0 59 1 s
  let s ← matchChar '.' s
  let (sec, _) ← getNumber 0 61 1 s
  pure { year := year - 1900, mon := mon - 1, mday := mday, hour := hour, min := min, sec := sec }

/-! ## The documented form -/

/-- A number in a time string. -/
structure Numeral where
  digits : List Char
  nonempty : digits ≠ []
  isDigit : ∀ c ∈ digits, c.isDigit

/-- The number that is written. -/
def Numeral.value (m : Numeral) : ℕ := digitsVal 0 m.digits

/-- A calendar date with its time of day. -/
structure CalendarDate where
  year : ℕ
  month : ℕ
  day : ℕ
  hour : ℕ
  minute : ℕ
  second : ℕ
  year_le : year ≤ 9999
  month_mem : 1 ≤ month ∧ month ≤ 12
  day_mem : 1 ≤ day ∧ day ≤ 31
  hour_le : hour ≤ 23
  minute_le : minute ≤ 59
  second_le : second ≤ 60

/-- The fields of a date, as a `struct tm` counts them. -/
def CalendarDate.tm (d : CalendarDate) : Tm where
  year := d.year - 1900
  mon := d.month - 1
  mday := d.day
  hour := d.hour
  min := d.minute
  sec := d.second

/-- A number below a hundred with two digits. -/
def twoDigits (n : ℕ) : List Char := [Nat.digitChar (n / 10), Nat.digitChar (n % 10)]

/-- `YYYYMMDDhhmm.ss`. -/
def CalendarDate.text (d : CalendarDate) : List Char :=
  twoDigits (d.year / 100) ++ twoDigits (d.year % 100) ++ twoDigits d.month ++ twoDigits d.day ++
    twoDigits d.hour ++ twoDigits d.minute ++ '.' :: twoDigits d.second

/-- A time string by its parts: machine time with or without a phase, and a date. -/
structure TimeText where
  mt : Option (Numeral × Option Numeral)
  date : Option CalendarDate

/-- `MT[.phase]`. -/
def mtText : Numeral × Option Numeral → List Char
  | (m, none) => m.digits
  | (m, some p) => m.digits ++ '.' :: p.digits

/-- The string itself. -/
def TimeText.text (x : TimeText) : List Char :=
  x.mt.elim [] mtText ++ ':' :: x.date.elim [] CalendarDate.text

/-! ## Digits -/

variable {s rest : List Char} {c : Char} {n v : ℕ}

/-- The calls of the host are answered by `strptime` and by this `mktime`. -/
def HostTime (mktime : Tm → ℤ) (tr : List DrvEvent) : Prop :=
  ∀ e ∈ tr, (∃ t, e = hostEvent (.strptime t) (strptime t)) ∨
    ∃ tm, e = hostEvent (.mktime tm) (mktime tm)

/-- `assign_time` stored what the string says, and no more: the machine time with its phase, `0`
where there is none, and the time of the calendar fields. -/
structure TimeText.Stored (x : TimeText) (cfg : LiberaConfig) (tr : List DrvEvent)
    (cfg' : LiberaConfig) : Prop where
  mt : ∀ m p, x.mt = some (m, p) → cfg'.time.mt.toNat = m.value ∧
    cfg'.time.phase.toNat = p.elim 0 Numeral.value
  no_mt : x.mt = none → (cfg'.time.mt, cfg'.time.phase) = (cfg.time.mt, cfg.time.phase)
  date : ∀ d, x.date = some d → hostEvent (.mktime d.tm) cfg'.time.st ∈ tr
  no_date : x.date = none → cfg'.time.st = cfg.time.st
  flags : cfg'.mask = cfg.mask ||| (if x.mt.isSome then wantSetmt else 0) |||
    (if x.date.isSome then wantSetst else 0)

/-- The numbers are ones of their types, and there is a time of the date. -/
structure TimeText.Fits (mktime : Tm → ℤ) (x : TimeText) : Prop where
  mt : ∀ m p, x.mt = some (m, p) → m.value < 2 ^ 63 ∧ p.elim 0 Numeral.value < 2 ^ 32
  date : ∀ d, x.date = some d → mktime d.tm ≠ -1

/-- The second component of a string of at least three characters that is no date to `strptime` once
the separators are in it, or one without a time. -/
def BadDate (mktime : Tm → ℤ) (s : List Char) : Prop :=
  3 ≤ s.length ∧ ∀ tm, strptime (insertDelims s 4) = some tm → mktime tm = -1

/-- The answer of `assign_time` to a second component, with such a host. -/
theorem assignSt_runs {mktime : Tm → ℤ} {cfg cfg' : LiberaConfig} {tr : List DrvEvent} {o : Outcome}
    (h : (assignSt s cfg).Runs tr (o, cfg')) (hhost : HostTime mktime tr) :
    (s.length < 3 ∧ o = .outOfRange ∧ cfg' = cfg) ∨
    (3 ≤ s.length ∧ strptime (insertDelims s 4) = none ∧ o = .ret (-1) ∧ cfg' = cfg) ∨
    ∃ tm, 3 ≤ s.length ∧ strptime (insertDelims s 4) = some tm ∧
      hostEvent (.mktime tm) (mktime tm) ∈ tr ∧ cfg'.time.st = mktime tm ∧
      (cfg'.time.mt, cfg'.time.phase) = (cfg.time.mt, cfg.time.phase) ∧
      if mktime tm = -1 then o = .ret (-2) else o = .ret 0 ∧ cfg'.mask = cfg.mask ||| wantSetst := by
  unfold assignSt delimited at h
  by_cases hlen : s.length < 3
  · rw [if_pos hlen] at h
    obtain ⟨rfl, h⟩ := h
    obtain ⟨rfl, rfl⟩ := Prod.mk.inj h
    exact .inl ⟨hlen, rfl, rfl⟩
  · rw [if_neg hlen] at h
    simp only [Prog.perform_bind, Prog.runs_call] at h
    obtain ⟨x, t, rfl, h⟩ := h
    have hx : x = strptime (insertDelims s 4) := by
      rcases hhost _ List.mem_cons_self with ⟨u, he⟩ | ⟨tm, he⟩ <;> cases he
      rfl
    cases x with
    | none =>
      obtain ⟨rfl, h⟩ := h
      obtain ⟨rfl, rfl⟩ := Prod.mk.inj h
      exact .inr (.inl ⟨not_lt.1 hlen, hx.symm, rfl, rfl⟩)
    | some tm =>
      simp only [Prog.runs_call] at h
      obtain ⟨st, t, rfl, h⟩ := h
      have hst : st = mktime tm := by
        rcases hhost _ (List.mem_cons_of_mem _ List.mem_cons_self) with ⟨u, he⟩ | ⟨tm', he⟩ <;>
          cases he
        rfl
      subst hst
      refine .inr (.inr ⟨tm, not_lt.1 hlen, hx.symm, by simp, ?_⟩)
      split at h
      · next hm =>
        obtain ⟨rfl, h⟩ := h
        obtain ⟨rfl, rfl⟩ := Prod.mk.inj h
        exact ⟨rfl, rfl, by rw [if_pos hm]⟩
      · next hm =>
        obtain ⟨rfl, h⟩ := h
        obtain ⟨rfl, rfl⟩ := Prod.mk.inj h
        exact ⟨rfl, rfl, by rw [if_neg hm]; exact ⟨rfl, rfl⟩⟩

/-! ## When a string is read as documented -/

variable {cfg cfg' : LiberaConfig} {tr : List DrvEvent} {o : Outcome} {mktime : Tm → ℤ}

/-- **Any other string** is refused when it has no delimiter, or a bad date. -/
theorem refused_iff (h : (assignTime s cfg).Runs tr (o, cfg')) (hhost : HostTime mktime tr) :
    (∃ rc < 0, o = .ret rc) ↔ ∀ sMt sSt, splitAt ':' s = some (sMt, sSt) → BadDate mktime sSt := by
  unfold assignTime at h
  cases hsplit : splitAt ':' s with
  | none =>
    rw [hsplit] at h
    obtain ⟨rfl, h⟩ := h
    obtain ⟨rfl, rfl⟩ := Prod.mk.inj h
    exact iff_of_true ⟨-4, by decide, rfl⟩ (by simp)
  | some ab =>
    obtain ⟨sMt, sSt⟩ := ab
    rw [hsplit] at h
    dsimp only at h
    have hall : (∀ a b, some (sMt, sSt) = some (a, b) → BadDate mktime b) ↔
        BadDate mktime sSt := by
      refine ⟨fun h => h _ _ rfl, fun h a b he => ?_⟩
      obtain ⟨rfl, rfl⟩ := Prod.mk.inj (Option.some.inj he)
      exact h
    rw [hall]
    by_cases hnil : sSt = []
    · rw [if_neg (not_not.2 hnil)] at h
      obtain ⟨rfl, h⟩ := h
      obtain ⟨rfl, rfl⟩ := Prod.mk.inj h
      refine iff_of_false ?_ fun hb => absurd hb.1 (by simp [hnil])
      rintro ⟨rc, hrc, ho⟩
      obtain rfl := Outcome.ret.inj ho
      exact absurd hrc (lt_irrefl 0)
    · rw [if_pos hnil] at h
      rcases assignSt_runs h hhost with ⟨hlt, rfl, -⟩ | ⟨hlen, hs, rfl, -⟩ |
        ⟨tm, hlen, hs, -, -, -, ho⟩
      · refine iff_of_false ?_ fun hb => absurd hb.1 (by omega)
        rintro ⟨rc, -, ho⟩
        cases ho
      · exact iff_of_true ⟨-1, by decide, rfl⟩ ⟨hlen, by simp [hs]⟩
      · have hbad : BadDate mktime sSt ↔ mktime tm = -1 := by
          simp [BadDate, hlen, hs]
        rw [hbad]
        by_cases htm : mktime tm = -1
        · rw [if_pos htm] at ho
          exact iff_of_true ⟨-2, by decide, ho⟩ htm
        · rw [if_neg htm] at ho
          refine iff_of_false ?_ htm
          rintro ⟨rc, hrc, ho'⟩
          obtain rfl := Outcome.ret.inj (ho.1.symm.trans ho')
          exact absurd hrc (lt_irrefl 0)

end LiberaDaq
