import Mathlib.Data.Int.Bitwise
import LiberaDaq.Cspi.Codes

/-!
# The arithmetic of the operators

Values of `int` and `int64_t` are integers, and every result is checked against its type. What
becomes of a result that does not fit, of a division by zero and of a shift by the width of the
type is a matter of the build: C leaves it open. The strict build stops at the first of them.
-/

namespace LiberaDaq.Transform

open Cspi

/-- Why an operator stops. -/
inductive Fault
  | overflow
  | truncation
  | divZero
  | wideShift
  | outside
  | unfinished
  deriving DecidableEq, Repr

/-- A fault of the arithmetic, and not of an index or of a loop. -/
def Fault.Arithmetical : Fault → Prop
  | outside | unfinished => False
  | _ => True

/-- How the library was built, and what its machine does where C leaves the outcome open. -/
structure Build where
  /-- `CORDIC_IGNORE_GAIN`. -/
  ignoreGain : Bool
  /-- A signed result that does not fit in the given number of bits. -/
  overflow : ℕ → ℤ → Except Fault ℤ
  truncation : ℤ → Except Fault ℤ
  divZero : ℤ → Except Fault ℤ
  wideShift : ℤ → Except Fault ℤ

/-- The build that stops wherever C leaves the outcome open. -/
def Build.strict (ignoreGain : Bool) : Build where
  ignoreGain := ignoreGain
  overflow _ _ := .error .overflow
  truncation _ := .error .truncation
  divZero _ := .error .divZero
  wideShift _ := .error .wideShift

/-- The build whose machine keeps the low bits of a result, answers a division by zero with zero and
shifts the sign in. -/
def Build.wrapping (ignoreGain : Bool) : Build where
  ignoreGain := ignoreGain
  overflow w x := .ok (x.bmod (2 ^ w))
  truncation x := .ok (x.bmod (2 ^ 32))
  divZero _ := .ok 0
  wideShift x := .ok (if x < 0 then -1 else 0)

/-- The faults that a computation may end with. -/
def FaultsIn (P : Fault → Prop) {α : Type} (x : Except Fault α) : Prop := ∀ e, x = .error e → P e

/-- A build whose machine stops, at a result that does not fit, for one of the given faults. -/
structure Build.StopsFor (b : Build) (P : Fault → Prop) : Prop where
  overflow : ∀ w x, FaultsIn P (b.overflow w x)
  truncation : ∀ x, FaultsIn P (b.truncation x)

/-- The same with the divisions by zero and the shifts. -/
structure Build.StopsOnlyFor (b : Build) (P : Fault → Prop) : Prop extends b.StopsFor P where
  divZero : ∀ x, FaultsIn P (b.divZero x)
  wideShift : ∀ x, FaultsIn P (b.wideShift x)

/-- A build that always goes on. -/
def Build.GoesOn (b : Build) : Prop := b.StopsOnlyFor fun _ => False

/-! ## The types -/

/-- The values of `int`. -/
def IsInt (x : ℤ) : Prop := -2 ^ 31 ≤ x ∧ x < 2 ^ 31

/-- The values of `int64_t`. -/
def IsInt64 (x : ℤ) : Prop := -2 ^ 63 ≤ x ∧ x < 2 ^ 63

instance (x : ℤ) : Decidable (IsInt x) := inferInstanceAs (Decidable (_ ∧ _))

instance (x : ℤ) : Decidable (IsInt64 x) := inferInstanceAs (Decidable (_ ∧ _))

theorem isInt_toInt (w : Word) : IsInt w.toInt := by
  have hlow := w.le_toInt
  have hhigh := w.toInt_lt
  exact ⟨by simpa using hlow, by simpa using hhigh⟩

/-- A value of `int` comes back from the word that keeps it. -/
theorem toInt_ofInt {x : ℤ} (h : IsInt x) : (BitVec.ofInt 32 x).toInt = x := by
  obtain ⟨hlow, hhigh⟩ := h
  rw [BitVec.toInt_ofInt, Int.bmod_eq_of_le] <;> omega

variable (b : Build)

/-- A result of type `int`. -/
def Build.int (x : ℤ) : Except Fault ℤ := if IsInt x then .ok x else b.overflow 32 x

/-- A result of type `int64_t`. -/
def Build.int64 (x : ℤ) : Except Fault ℤ := if IsInt64 x then .ok x else b.overflow 64 x

/-- The cast `(int)x` of an `int64_t`. -/
def Build.castInt (x : ℤ) : Except Fault ℤ := if IsInt x then .ok x else b.truncation x

/-- The quotient `x / y` of type `int64_t`, rounded towards zero. -/
def Build.div64 (x y : ℤ) : Except Fault ℤ := if y = 0 then b.divZero x else b.int64 (x.tdiv y)

/-- The shift `x >> n` of an `int64_t`. -/
def Build.shift64 (x : ℤ) (n : ℕ) : Except Fault ℤ :=
  if n < 64 then .ok (x >>> n) else b.wideShift x

/-! ## Sequences of results -/

theorem bind_ok {α β : Type} {x : Except Fault α} {f : α → Except Fault β} {z : β} :
    (x >>= f) = .ok z ↔ ∃ y, x = .ok y ∧ f y = .ok z := by
  cases x with
  | error e => simp only [Bind.bind, Except.bind, reduceCtorEq, false_and, exists_false]
  | ok y => simp only [Bind.bind, Except.bind, Except.ok.injEq, exists_eq_left']

theorem bind_error {α β : Type} {x : Except Fault α} {f : α → Except Fault β} {e : Fault} :
    (x >>= f) = .error e ↔ x = .error e ∨ ∃ y, x = .ok y ∧ f y = .error e := by
  cases x with
  | error e' =>
    simp only [Bind.bind, Except.bind, Except.error.injEq, reduceCtorEq, false_and, exists_false,
      or_false]
  | ok y =>
    simp only [Bind.bind, Except.bind, reduceCtorEq, Except.ok.injEq, exists_eq_left', false_or]

theorem map_ok {α β : Type} {x : Except Fault α} {f : α → β} {z : β} :
    x.map f = .ok z ↔ ∃ y, x = .ok y ∧ f y = z := by
  cases x with
  | error e => simp only [Except.map, reduceCtorEq, false_and, exists_false]
  | ok y => simp only [Except.map, Except.ok.injEq, exists_eq_left']

theorem map_error {α β : Type} {x : Except Fault α} {f : α → β} {e : Fault} :
    x.map f = .error e ↔ x = .error e := by
  cases x with
  | error e' => simp only [Except.map, Except.error.injEq]
  | ok y => simp only [Except.map, reduceCtorEq]

@[simp] theorem ok_bind {α β : Type} (y : α) (f : α → Except Fault β) :
    (Except.ok y >>= f) = f y := rfl

@[simp] theorem error_bind {α β : Type} (e : Fault) (f : α → Except Fault β) :
    (Except.error e >>= f) = .error e := rfl

theorem faultsIn_ok {P : Fault → Prop} {α : Type} (y : α) :
    FaultsIn P (.ok y : Except Fault α) := nofun

theorem FaultsIn.bind {P : Fault → Prop} {α β : Type} {x : Except Fault α}
    {f : α → Except Fault β} (hx : FaultsIn P x) (hf : ∀ y, x = .ok y → FaultsIn P (f y)) :
    FaultsIn P (x >>= f) := by
  intro e he
  rcases bind_error.1 he with herr | ⟨y, hy, herr⟩
  · exact hx e herr
  · exact hf y hy e herr

/-- A computation without a fault has a result. -/
theorem FaultsIn.exists_ok {α : Type} {x : Except Fault α} (h : FaultsIn (fun _ => False) x) :
    ∃ y, x = .ok y := by
  cases x with
  | error e => exact (h e rfl).elim
  | ok y => exact ⟨y, rfl⟩

/-! ## The builds -/

theorem Build.goesOn_wrapping (g : Bool) : (Build.wrapping g).GoesOn where
  overflow _ _ := faultsIn_ok _
  truncation _ := faultsIn_ok _
  divZero _ := faultsIn_ok _
  wideShift _ := faultsIn_ok _

theorem FaultsIn.mono {P P' : Fault → Prop} {α : Type} {x : Except Fault α} (h : FaultsIn P x)
    (hP : ∀ e, P e → P' e) : FaultsIn P' x := fun e he => hP e (h e he)

theorem Build.GoesOn.stopsOnlyFor {b : Build} (h : b.GoesOn) (P : Fault → Prop) :
    b.StopsOnlyFor P where
  overflow w x := (h.overflow w x).mono fun _ => False.elim
  truncation x := (h.truncation x).mono fun _ => False.elim
  divZero x := (h.divZero x).mono fun _ => False.elim
  wideShift x := (h.wideShift x).mono fun _ => False.elim

namespace Build.StopsFor

variable {b} {P : Fault → Prop} (h : b.StopsFor P)
include h

theorem int (x : ℤ) : FaultsIn P (b.int x) := by
  rw [Build.int]
  split
  · exact faultsIn_ok _
  · exact h.overflow 32 x

theorem int64 (x : ℤ) : FaultsIn P (b.int64 x) := by
  rw [Build.int64]
  split
  · exact faultsIn_ok _
  · exact h.overflow 64 x

theorem castInt (x : ℤ) : FaultsIn P (b.castInt x) := by
  rw [Build.castInt]
  split
  · exact faultsIn_ok _
  · exact h.truncation x

theorem div64 (x : ℤ) {y : ℤ} (hy : y = 0 → ∀ x, FaultsIn P (b.divZero x)) :
    FaultsIn P (b.div64 x y) := by
  rw [Build.div64]
  split
  · exact hy ‹_› x
  · exact h.int64 _

end Build.StopsFor

theorem Build.StopsOnlyFor.shift64 {b : Build} {P : Fault → Prop} (h : b.StopsOnlyFor P) (x : ℤ)
    (n : ℕ) :
    FaultsIn P (b.shift64 x n) := by
  rw [Build.shift64]
  split
  · exact faultsIn_ok _
  · exact h.wideShift x

/-! ## Results that fit -/

variable {b}

theorem Build.int_of {x : ℤ} (h : IsInt x) : b.int x = .ok x := if_pos h

theorem Build.int64_of {x : ℤ} (h : IsInt64 x) : b.int64 x = .ok x := if_pos h

theorem Build.castInt_of {x : ℤ} (h : IsInt x) : b.castInt x = .ok x := if_pos h

theorem Build.shift64_of {x : ℤ} {n : ℕ} (h : n < 64) : b.shift64 x n = .ok (x >>> n) := if_pos h

theorem Build.div64_of {x y : ℤ} (h : y ≠ 0) (hq : IsInt64 (x.tdiv y)) :
    b.div64 x y = .ok (x.tdiv y) := by
  rw [Build.div64, if_neg h, Build.int64_of hq]

theorem Build.strict_int_error {g : Bool} {x : ℤ} {e : Fault} :
    (Build.strict g).int x = .error e ↔ ¬IsInt x ∧ e = .overflow := by
  rw [Build.int]
  by_cases h : IsInt x
  · rw [if_pos h]
    simp only [h, not_true_eq_false, false_and, reduceCtorEq]
  · rw [if_neg h]
    simp only [h, not_false_eq_true, true_and, Build.strict, Except.error.injEq, eq_comm]

end LiberaDaq.Transform
