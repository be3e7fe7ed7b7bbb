import Mathlib.Algebra.Group.Int.Defs
import Mathlib.Algebra.Group.Nat.Defs
import Mathlib.Data.List.TakeWhile
import Mathlib.Data.List.Basic

/-!
# Scanning text

Text as C reads it: lines and blanks, the decimal numbers of `%d` and the two hexadecimal digits of
`%2x`.
-/

namespace LiberaDaq.Text

/-- `isspace`, in the C locale. -/
def isSpace (c : Char) : Bool := c = ' ' || (9 ≤ c.toNat && c.toNat ≤ 13)

/-- The text behind the blanks. -/
def skipSpace (s : List Char) : List Char := s.dropWhile isSpace

/-- The lines of a file, each with the character that ends it. -/
def fileLines : List Char → List (List Char)
  | [] => []
  | '\n' :: s => ['\n'] :: fileLines s
  | c :: s =>
    match fileLines s with
    | [] => [[c]]
    | line :: lines => (c :: line) :: lines

/-- The characters of a string up to its end. -/
def cString (s : List Char) : List Char := s.takeWhile (· ≠ '\x00')

/-- The sign of a number, and the text behind it. -/
def scanSign : List Char → Bool × List Char
  | '-' :: s => (true, s)
  | '+' :: s => (false, s)
  | s => (false, s)

/-- The number that decimal digits stand for. -/
def numeral (ds : List Char) : ℕ := ds.foldl (fun v d => 10 * v + (d.toNat - '0'.toNat)) 0

/-- The nearest number with `w` bits. -/
def saturated (w : ℕ) (x : ℤ) : ℤ := max (-2 ^ (w - 1)) (min x (2 ^ (w - 1) - 1))

/-- `%d` for an `int`: blanks, a sign, and digits. A number that does not fit is read as the nearest
one that does. -/
def scanInt (s : List Char) : Option (ℤ × List Char) :=
  let (negative, s) := scanSign (skipSpace s)
  let ds := s.takeWhile Char.isDigit
  if ds = [] then none
  else some (saturated 32 (if negative then -numeral ds else numeral ds), s.dropWhile Char.isDigit)

/-- `isxdigit`. -/
def isHex (c : Char) : Bool :=
  (48 ≤ c.toNat && c.toNat ≤ 57) || (65 ≤ c.toNat && c.toNat ≤ 70) ||
    (97 ≤ c.toNat && c.toNat ≤ 102)

/-- The value of a hexadecimal digit. -/
def hexVal (c : Char) : ℕ :=
  if c.toNat ≤ 57 then c.toNat - 48 else if c.toNat ≤ 70 then c.toNat - 55 else c.toNat - 87

/-- The number that hexadecimal digits stand for. -/
def hexNumeral (ds : List Char) : ℕ := ds.foldl (fun v d => 16 * v + hexVal d) 0

/-- `%2x` for a byte, with the text behind what it took: blanks, and at most two characters of a
number with its sign or its `0x`. -/
def scanHexByte (s : List Char) : Option (BitVec 8) × List Char :=
  let s := skipSpace s
  if s.head? = some '+' ∨ s.head? = some '-' then
    let ds := (s.tail.take 1).takeWhile isHex
    if ds = [] then (none, s.tail)
    else (some (if s.head? = some '-' then -.ofNat 8 (hexNumeral ds) else .ofNat 8 (hexNumeral ds)),
      s.tail.drop 1)
  else if s.head? = some '0' ∧ (s[1]? = some 'x' ∨ s[1]? = some 'X') then (some 0, s.drop 2)
  else
    let ds := (s.take 2).takeWhile isHex
    if ds = [] then (none, s) else (some (.ofNat 8 (hexNumeral ds)), s.drop ds.length)

theorem isHex_ne {c d : Char} (h : isHex c = true) (hd : isHex d = false) : c ≠ d := by
  rintro rfl
  rw [h] at hd
  cases hd

theorem not_isSpace_of_isHex {c : Char} (h : isHex c = true) : isSpace c = false := by
  have hblank : c ≠ ' ' := isHex_ne h (by decide)
  simp only [isHex, Bool.or_eq_true, Bool.and_eq_true, decide_eq_true_eq] at h
  simp only [isSpace, hblank, decide_false, Bool.false_or, Bool.and_eq_false_iff,
    decide_eq_false_iff_not]
  omega

/-- Two hexadecimal digits are read as a byte. -/
theorem scanHexByte_pair {c d : Char} (hc : isHex c = true) (hd : isHex d = true) (s : List Char) :
    scanHexByte (c :: d :: s) = (some (.ofNat 8 (16 * hexVal c + hexVal d)), s) := by
  have hspace : skipSpace (c :: d :: s) = c :: d :: s := by
    rw [skipSpace, List.dropWhile_cons_of_neg (by simp [not_isSpace_of_isHex hc])]
  have hplus : c ≠ '+' := isHex_ne hc (by decide)
  have hminus : c ≠ '-' := isHex_ne hc (by decide)
  have hx : d ≠ 'x' := isHex_ne hd (by decide)
  have hX : d ≠ 'X' := isHex_ne hd (by decide)
  simp [scanHexByte, hspace, hplus, hminus, hx, hX, hc, hd, hexNumeral]

end LiberaDaq.Text
