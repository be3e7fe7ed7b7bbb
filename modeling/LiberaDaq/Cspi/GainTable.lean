import LiberaDaq.Text.Scan

/-!
# The table of gains

`ebpp_toattn` looks a gain up in `gain.conf` and returns the sum of its two attenuators. The variables
that a line is scanned into are those of the line before, and how many of them the line gave is not
looked at: a line that starts with the gain alone is judged with the attenuators of another line.
`toattn_iff` says which tables are read as they should.
-/

namespace LiberaDaq.Cspi

open LiberaDaq.Text

/-- The variables that `ebpp_toattn` scans a line into. Before the first line they are what their
memory was. -/
structure Attn where
  g : ℤ
  a1 : ℤ
  a2 : ℤ
  deriving DecidableEq, Repr

/-- `sscanf( p, "%d %d %d", &g, &a1, &a2 )`. -/
def Attn.scan (v : Attn) (p : List Char) : Attn :=
  match scanInt p with
  | none => v
  | some (g, p) =>
    match scanInt p with
    | none => { v with g := g }
    | some (a1, p) =>
      match scanInt p with
      | none => { v with g := g, a1 := a1 }
      | some (a2, _) => ⟨g, a1, a2⟩

/-- The text of a line that is not blank and not a comment. -/
def lineText (line : List Char) : Option (List Char) :=
  let p := skipSpace (cString line)
  if p = [] ∨ p.head? = some '#' then none else some p

/-- The loop of `ebpp_toattn`, with the text at which it was left. -/
def toattnLoop (gain : ℤ) : List (List Char) → Attn → ℤ × Option (List Char)
  | [], _ => (-1, none)
  | line :: lines, v =>
    match lineText line with
    | none => toattnLoop gain lines v
    | some p =>
      if gain = (v.scan p).g then (((v.scan p).a1 + (v.scan p).a2).bmod (2 ^ 32), some p)
      else toattnLoop gain lines (v.scan p)

/-- `ebpp_toattn`, of a file that may be missing. -/
def ebppToattn (gain : ℤ) (v : Attn) : Option (List Char) → ℤ
  | none => -1
  | some s => (toattnLoop gain (fileLines s) v).1

/-! ## The table -/

/-- The texts of the lines. -/
def texts (lines : List (List Char)) : List (List Char) := lines.filterMap lineText

/-- The three integers that a text starts with. -/
def threeInts (p : List Char) : Option Attn := do
  let (g, p) ← scanInt p
  let (a1, p) ← scanInt p
  let (a2, _) ← scanInt p
  pure ⟨g, a1, a2⟩

/-- The integer that a text starts with. -/
def firstInt (p : List Char) : Option ℤ := (scanInt p).map Prod.fst

/-- The sum of the attenuators of a gain: those of the first text that starts with the gain and two
more integers. -/
def attnOf (gain : ℤ) (lines : List (List Char)) : ℤ :=
  (((texts lines).filterMap threeInts).find? fun w => w.g = gain).elim (-1) fun w => w.a1 + w.a2

/-- The table is read as it should: the result is the one of the table, and the loop is left at a
text that starts with three integers. -/
def LooksUp (gain : ℤ) (v : Attn) (lines : List (List Char)) : Prop :=
  (toattnLoop gain lines v).1 = attnOf gain lines ∧
    ∀ p, (toattnLoop gain lines v).2 = some p → (threeInts p).isSome

variable {gain g : ℤ} {v w : Attn} {p : List Char} {line : List Char} {lines : List (List Char)}

/-! ## One line -/

theorem scan_of_none (h : firstInt p = none) : v.scan p = v := by
  have hscan : scanInt p = none := Option.map_eq_none_iff.1 h
  simp [Attn.scan, hscan]

theorem scan_g (h : firstInt p = some g) : (v.scan p).g = g := by
  obtain ⟨⟨g', s⟩, hscan, rfl⟩ := Option.map_eq_some_iff.1 h
  simp only [Attn.scan, hscan]
  split
  · rfl
  · split <;> rfl

theorem scan_three (h : threeInts p = some w) : v.scan p = w := by
  obtain ⟨⟨g, s⟩, hg, h⟩ := Option.bind_eq_some_iff.1 h
  obtain ⟨⟨a1, s₁⟩, ha1, h⟩ := Option.bind_eq_some_iff.1 h
  obtain ⟨⟨a2, s₂⟩, ha2, h⟩ := Option.bind_eq_some_iff.1 h
  cases Option.some.inj h
  simp [Attn.scan, hg, ha1, ha2]

theorem firstInt_of_three (h : threeInts p = some w) : firstInt p = some w.g := by
  obtain ⟨⟨g, s⟩, hg, h⟩ := Option.bind_eq_some_iff.1 h
  obtain ⟨⟨a1, s₁⟩, -, h⟩ := Option.bind_eq_some_iff.1 h
  obtain ⟨⟨a2, s₂⟩, -, h⟩ := Option.bind_eq_some_iff.1 h
  cases Option.some.inj h
  simp [firstInt, hg]

/-- A sum that fits an `int` is not wrapped. -/
theorem bmod_eq_iff {x : ℤ} : x.bmod (2 ^ 32) = x ↔ -2 ^ 31 ≤ x ∧ x < 2 ^ 31 := by
  constructor
  · intro h
    have hlow := Int.le_bmod (x := x) (m := 2 ^ 32) (by decide)
    have hhigh := Int.bmod_lt (x := x) (m := 2 ^ 32) (by decide)
    omega
  · rintro ⟨hlow, hhigh⟩
    rw [Int.bmod_eq_of_le] <;> omega

/-! ## The loop -/

theorem looksUp_blank (h : lineText line = none) :
    LooksUp gain v (line :: lines) ↔ LooksUp gain v lines := by
  simp [LooksUp, toattnLoop, attnOf, texts, h]

/-- A text that starts with another number, or with none, is passed over. -/
theorem looksUp_other (h : lineText line = some p) (hp : firstInt p ≠ some gain)
    (hv : (v.scan p).g ≠ gain) : LooksUp gain v (line :: lines) ↔ LooksUp gain (v.scan p) lines := by
  have hattn : attnOf gain (line :: lines) = attnOf gain lines := by
    cases hw : threeInts p with
    | none => simp [attnOf, texts, h, hw]
    | some w =>
      have hg : w.g ≠ gain := fun hg => hp (by rw [firstInt_of_three hw, hg])
      simp [attnOf, texts, h, hw, hg]
  have hloop : toattnLoop gain (line :: lines) v = toattnLoop gain lines (v.scan p) := by
    simp [toattnLoop, h, hv.symm]
  rw [LooksUp, LooksUp, hattn, hloop]

/-- At a text that starts with the gain the loop is left. -/
theorem looksUp_found (h : lineText line = some p) (hp : firstInt p = some gain) :
    LooksUp gain v (line :: lines) ↔
      ∃ w, threeInts p = some w ∧ -2 ^ 31 ≤ w.a1 + w.a2 ∧ w.a1 + w.a2 < 2 ^ 31 := by
  have hloop : toattnLoop gain (line :: lines) v =
      (((v.scan p).a1 + (v.scan p).a2).bmod (2 ^ 32), some p) := by
    simp [toattnLoop, h, scan_g hp]
  rw [LooksUp, hloop]
  cases hw : threeInts p with
  | none => simp [hw]
  | some w =>
    have hg : w.g = gain := by
      rw [firstInt_of_three hw] at hp
      exact Option.some.inj hp
    have hattn : attnOf gain (line :: lines) = w.a1 + w.a2 := by
      simp [attnOf, texts, h, hw, hg]
    rw [scan_three hw, hattn, bmod_eq_iff]
    simp [hw]

/-- The loop is left at the first text that starts with the gain, or at the first text of all if that
one starts with no integer and the memory of `g` happened to hold the gain. -/
theorem looksUp_iff :
    LooksUp gain v lines ↔
      (∀ p, (texts lines).head? = some p → firstInt p = none → v.g ≠ gain) ∧
      ∀ p, ((texts lines).find? fun p => firstInt p = some gain) = some p →
        ∃ w, threeInts p = some w ∧ -2 ^ 31 ≤ w.a1 + w.a2 ∧ w.a1 + w.a2 < 2 ^ 31 := by
  induction lines generalizing v with
  | nil => simp [LooksUp, toattnLoop, attnOf, texts]
  | cons line lines ih =>
    cases h : lineText line with
    | none =>
      have htexts : texts (line :: lines) = texts lines := by simp [texts, h]
      rw [looksUp_blank h, ih, htexts]
    | some p =>
      have htexts : texts (line :: lines) = p :: texts lines := by simp [texts, h]
      rw [htexts]
      simp only [List.head?_cons, Option.some.injEq, forall_eq', List.find?_cons]
      by_cases hp : firstInt p = some gain
      · simp [looksUp_found h hp, hp]
      · -- the next text is judged with the `g` that this one leaves
        have hpass : (v.scan p).g ≠ gain → (LooksUp gain v (line :: lines) ↔
            ∀ q, ((texts lines).find? fun p => firstInt p = some gain) = some q →
              ∃ w, threeInts q = some w ∧ -2 ^ 31 ≤ w.a1 + w.a2 ∧ w.a1 + w.a2 < 2 ^ 31) := by
          intro hv
          rw [looksUp_other h hp hv, ih]
          exact and_iff_right fun _ _ _ => hv
        simp only [hp, decide_false]
        cases hfirst : firstInt p with
        | none =>
          have hscan : v.scan p = v := scan_of_none hfirst
          rw [hscan] at hpass
          by_cases hv : v.g = gain
          · have hthree : threeInts p = none := by
              cases hw : threeInts p with
              | none => rfl
              | some w => exact absurd (hfirst.symm.trans (firstInt_of_three hw)) (by simp)
            simp [LooksUp, toattnLoop, h, hscan, hv, hthree]
          · rw [hpass hv]
            simp [hv]
        | some g =>
          have hg : g ≠ gain := fun hg => hp (by rw [hfirst, hg])
          rw [hpass (by rw [scan_g hfirst]; exact hg)]
          simp

/-- **The gain table.** `ebpp_toattn` returns the attenuators of the first line that starts with the
gain and two more integers, and is left at no other line, if and only if the first line that starts
with the gain starts with three integers, of which the last two have a sum of type `int`, and the
first line of the table starts with an integer or the memory of `g` does not hold the gain. -/
theorem toattn_iff (gain : ℤ) (v : Attn) (s : List Char) :
    (ebppToattn gain v (some s) = attnOf gain (fileLines s) ∧
      ∀ p, (toattnLoop gain (fileLines s) v).2 = some p → (threeInts p).isSome) ↔
    (∀ p, (texts (fileLines s)).head? = some p → firstInt p = none → v.g ≠ gain) ∧
      ∀ p, ((texts (fileLines s)).find? fun p => firstInt p = some gain) = some p →
        ∃ w, threeInts p = some w ∧ -2 ^ 31 ≤ w.a1 + w.a2 ∧ w.a1 + w.a2 < 2 ^ 31 :=
  looksUp_iff

/-- A line with the gain alone gets the attenuators of the line before. -/
theorem toattn_stale : ¬∀ gain v s,
    ebppToattn gain v (some s) = attnOf gain (fileLines s) := by
  intro h
  have hstale := h 20 ⟨0, 0, 0⟩ "10 1 2\n20\n20 3 4\n".toList
  revert hstale
  decide

end LiberaDaq.Cspi
