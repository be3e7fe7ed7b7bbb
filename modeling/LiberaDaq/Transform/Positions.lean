import LiberaDaq.Cspi.Params
import LiberaDaq.Transform.Cordic

/-!
# The position transform

`ebpp_transform_dd_single` and `ebpp_transform_dd` of `ebpp.c`, over the memory that holds both
buffers. The buffers are one buffer or they are apart: every field of a raw atom is read before the
field of the atom at its place is written, so that the two cases give the same atoms.
-/

namespace LiberaDaq.Transform

open Cspi

/-! ## Atoms in memory -/

/-- `CSPI_DD_RAWATOM`. -/
structure RawAtom where
  cosVa : Word
  sinVa : Word
  cosVb : Word
  sinVb : Word
  cosVc : Word
  sinVc : Word
  cosVd : Word
  sinVd : Word
  deriving DecidableEq, Repr

/-- `CSPI_DD_ATOM`. -/
@[ext] structure Atom where
  Va : Word
  Vb : Word
  Vc : Word
  Vd : Word
  X : Word
  Y : Word
  Q : Word
  Sum : Word
  deriving DecidableEq, Repr

/-- The memory, in units of an `int`. -/
abbrev Memory := ℕ → Word

/-- The raw atom at an address. -/
def rawAt (m : Memory) (p : ℕ) : RawAtom :=
  ⟨m p, m (p + 1), m (p + 2), m (p + 3), m (p + 4), m (p + 5), m (p + 6), m (p + 7)⟩

/-- The atom at an address. -/
def atomAt (m : Memory) (q : ℕ) : Atom :=
  ⟨m q, m (q + 1), m (q + 2), m (q + 3), m (q + 4), m (q + 5), m (q + 6), m (q + 7)⟩

/-- An integer stored at an address. -/
def store (m : Memory) (a : ℕ) (x : ℤ) : Memory := Function.update m a (BitVec.ofInt 32 x)

/-- An atom stored at an address. -/
def putAtom (m : Memory) (q : ℕ) (atom : Atom) : Memory := fun a =>
  if a = q then atom.Va
  else if a = q + 1 then atom.Vb
  else if a = q + 2 then atom.Vc
  else if a = q + 3 then atom.Vd
  else if a = q + 4 then atom.X
  else if a = q + 5 then atom.Y
  else if a = q + 6 then atom.Q
  else if a = q + 7 then atom.Sum
  else m a

theorem rawAt_congr {m m' : Memory} {p : ℕ} (h : ∀ c < 8, m' (p + c) = m (p + c)) :
    rawAt m' p = rawAt m p := by
  have hzero := h 0 (by omega)
  rw [Nat.add_zero] at hzero
  simp [rawAt, hzero, h]

theorem atomAt_congr {m m' : Memory} {q : ℕ} (h : ∀ c < 8, m' (q + c) = m (q + c)) :
    atomAt m' q = atomAt m q := by
  have hzero := h 0 (by omega)
  rw [Nat.add_zero] at hzero
  simp [atomAt, hzero, h]

theorem store_other (m : Memory) {a a' : ℕ} (x : ℤ) (h : a' ≠ a) : store m a x a' = m a' :=
  Function.update_of_ne h ..

@[simp] theorem atomAt_putAtom (m : Memory) (q : ℕ) (atom : Atom) :
    atomAt (putAtom m q atom) q = atom := by
  simp [atomAt, putAtom]

theorem putAtom_other (m : Memory) {q a : ℕ} (atom : Atom) (h : a < q ∨ q + 8 ≤ a) :
    putAtom m q atom a = m a := by
  simp only [putAtom]
  rw [if_neg (by omega), if_neg (by omega), if_neg (by omega), if_neg (by omega),
    if_neg (by omega), if_neg (by omega), if_neg (by omega), if_neg (by omega)]

/-! ## The code -/

/-- `cordic_amp( sin >> 1, cos >> 1 )`, the amplitude of one of the four signals of a raw atom. -/
def signalAmp (b : Build) (sin cos : Word) : Except Fault ℤ :=
  cordicAmp b (sin.toInt >>> (1 : ℕ)) (cos.toInt >>> (1 : ℕ))

/-- `(int)(x / S) - offset`, where `x` is the product of the difference `d` with a coefficient. -/
def ddCoordinate (b : Build) (d k S offset : ℤ) : Except Fault ℤ := do
  let x ← b.int64 (d * k)
  let quotient ← b.div64 x S
  let position ← b.castInt quotient
  b.int (position - offset)

/-- `ebpp_transform_dd_single`. The sums of four values of `int` are far from the bounds of
`int64_t`. -/
def ebppTransformDdSingle (b : Build) (cache : Cache) (p q : ℕ) (m : Memory) :
    Except Fault Memory := do
  let Va ← signalAmp b (m (p + 1)) (m p)
  let m := store m q Va
  let Vb ← signalAmp b (m (p + 3)) (m (p + 2))
  let m := store m (q + 1) Vb
  let Vc ← signalAmp b (m (p + 5)) (m (p + 4))
  let m := store m (q + 2) Vc
  let Vd ← signalAmp b (m (p + 7)) (m (p + 6))
  let m := store m (q + 3) Vd
  let S := Va + Vb + Vc + Vd
  let X ← ddCoordinate b (Va + Vd - Vb - Vc) cache.kx.toInt S cache.xoffset.toInt
  let m := store m (q + 4) X
  let Y ← ddCoordinate b (Va + Vb - Vc - Vd) cache.ky.toInt S cache.yoffset.toInt
  let m := store m (q + 5) Y
  let Q ← ddCoordinate b (Va + Vc - Vb - Vd) cache.kx.toInt S cache.qoffset.toInt
  let m := store m (q + 6) Q
  -- prevents an overflow of the sum
  let Sum ← b.castInt (S >>> (2 : ℕ))
  pure (store m (q + 7) Sum)

/-- The loop of `ebpp_transform_dd` and of the last part of the transform that removes spikes:
`n` atoms from index `i` on. -/
def transformFrom (b : Build) (cache : Cache) (inp out : ℕ) :
    ℕ → ℕ → Memory → Except Fault Memory
  | _, 0, m => pure m
  | i, n + 1, m => do
    let m' ← ebppTransformDdSingle b cache (inp + 8 * i) (out + 8 * i) m
    transformFrom b cache inp out (i + 1) n m'

/-- `ebpp_transform_dd`. -/
def ebppTransformDd (b : Build) (cache : Cache) (inp out count : ℕ) (m : Memory) :
    Except Fault (ℤ × Memory) := do
  let m' ← transformFrom b cache inp out 0 count m
  pure (0, m')

/-! ## The transform of one atom -/

/-- The atom with the given amplitudes. -/
def positions (b : Build) (cache : Cache) (Va Vb Vc Vd : ℤ) : Except Fault Atom := do
  let S := Va + Vb + Vc + Vd
  let X ← ddCoordinate b (Va + Vd - Vb - Vc) cache.kx.toInt S cache.xoffset.toInt
  let Y ← ddCoordinate b (Va + Vb - Vc - Vd) cache.ky.toInt S cache.yoffset.toInt
  let Q ← ddCoordinate b (Va + Vc - Vb - Vd) cache.kx.toInt S cache.qoffset.toInt
  let Sum ← b.castInt (S >>> (2 : ℕ))
  pure ⟨.ofInt 32 Va, .ofInt 32 Vb, .ofInt 32 Vc, .ofInt 32 Vd, .ofInt 32 X, .ofInt 32 Y,
    .ofInt 32 Q, .ofInt 32 Sum⟩

/-- The atom of a raw atom. -/
def transformAtom (b : Build) (cache : Cache) (raw : RawAtom) : Except Fault Atom := do
  let Va ← signalAmp b raw.sinVa raw.cosVa
  let Vb ← signalAmp b raw.sinVb raw.cosVb
  let Vc ← signalAmp b raw.sinVc raw.cosVc
  let Vd ← signalAmp b raw.sinVd raw.cosVd
  positions b cache Va Vb Vc Vd

/-- One buffer, or two that are apart. -/
def Placed (size p q : ℕ) : Prop := p = q ∨ p + size ≤ q ∨ q + size ≤ p

theorem store_atom (m : Memory) (q : ℕ) (Va Vb Vc Vd X Y Q Sum : ℤ) :
    store (store (store (store (store (store (store (store m q Va) (q + 1) Vb) (q + 2) Vc)
        (q + 3) Vd) (q + 4) X) (q + 5) Y) (q + 6) Q) (q + 7) Sum =
      putAtom m q ⟨.ofInt 32 Va, .ofInt 32 Vb, .ofInt 32 Vc, .ofInt 32 Vd, .ofInt 32 X,
        .ofInt 32 Y, .ofInt 32 Q, .ofInt 32 Sum⟩ := by
  funext a
  simp only [store, putAtom, Function.update_apply]
  by_cases hin : q ≤ a ∧ a < q + 8
  · obtain ⟨k, rfl⟩ := Nat.exists_eq_add_of_le hin.1
    obtain rfl | rfl | rfl | rfl | rfl | rfl | rfl | rfl : k = 0 ∨ k = 1 ∨ k = 2 ∨ k = 3 ∨
        k = 4 ∨ k = 5 ∨ k = 6 ∨ k = 7 := by omega
    all_goals simp
  · simp (disch := omega) only [if_neg]

/-- **One buffer or two give the same atom.** -/
theorem ebppTransformDdSingle_eq (b : Build) (cache : Cache) {p q : ℕ} (m : Memory)
    (h : Placed 8 p q) :
    ebppTransformDdSingle b cache p q m =
      (transformAtom b cache (rawAt m p)).map (putAtom m q) := by
  have hplaced : p = q ∨ p + 8 ≤ q ∨ q + 8 ≤ p := h
  -- a field is read before the field of the atom at its place is written
  simp (disch := omega) only [ebppTransformDdSingle, transformAtom, positions, rawAt, store_other]
  cases signalAmp b (m (p + 1)) (m p) with
  | error e => rfl
  | ok Va =>
  cases signalAmp b (m (p + 3)) (m (p + 2)) with
  | error e => rfl
  | ok Vb =>
  cases signalAmp b (m (p + 5)) (m (p + 4)) with
  | error e => rfl
  | ok Vc =>
  cases signalAmp b (m (p + 7)) (m (p + 6)) with
  | error e => rfl
  | ok Vd =>
  simp only [ok_bind]
  cases ddCoordinate b (Va + Vd - Vb - Vc) cache.kx.toInt (Va + Vb + Vc + Vd)
      cache.xoffset.toInt with
  | error e => rfl
  | ok X =>
  cases ddCoordinate b (Va + Vb - Vc - Vd) cache.ky.toInt (Va + Vb + Vc + Vd)
      cache.yoffset.toInt with
  | error e => rfl
  | ok Y =>
  cases ddCoordinate b (Va + Vc - Vb - Vd) cache.kx.toInt (Va + Vb + Vc + Vd)
      cache.qoffset.toInt with
  | error e => rfl
  | ok Q =>
  cases b.castInt ((Va + Vb + Vc + Vd) >>> (2 : ℕ)) with
  | error e => rfl
  | ok Sum =>
  simp only [ok_bind]
  exact congrArg Except.ok (store_atom m q Va Vb Vc Vd X Y Q Sum)

/-! ## The transform of a buffer -/

theorem Placed.atom {count inp out i : ℕ} (h : Placed (8 * count) inp out) (hi : i < count) :
    Placed 8 (inp + 8 * i) (out + 8 * i) := by
  have hplaced : inp = out ∨ inp + 8 * count ≤ out ∨ out + 8 * count ≤ inp := h
  rw [Placed]
  omega

section Buffer

variable {b : Build} {cache : Cache} {inp out count : ℕ} (hplaced : Placed (8 * count) inp out)

theorem transformFrom_append (i n n' : ℕ) (m : Memory) :
    transformFrom b cache inp out i (n + n') m =
      (transformFrom b cache inp out i n m >>= transformFrom b cache inp out (i + n) n') := by
  induction n generalizing i m with
  | zero =>
    rw [Nat.zero_add]
    rfl
  | succ n ih =>
    rw [Nat.succ_add, transformFrom, transformFrom, bind_assoc]
    refine bind_congr fun m' => ?_
    rw [ih, Nat.succ_add_eq_add_succ]

include hplaced

theorem single_frame {i : ℕ} (hi : i < count) {m m' : Memory}
    (h : ebppTransformDdSingle b cache (inp + 8 * i) (out + 8 * i) m = .ok m') {a : ℕ}
    (ha : a < out + 8 * i ∨ out + 8 * i + 8 ≤ a) : m' a = m a := by
  rw [ebppTransformDdSingle_eq b cache m (hplaced.atom hi)] at h
  obtain ⟨atom, -, rfl⟩ := map_ok.1 h
  exact putAtom_other m atom ha

/-- A part of the loop writes the atoms at its own indices alone. -/
theorem transformFrom_frame {i n : ℕ} (hin : i + n ≤ count) {m m' : Memory}
    (h : transformFrom b cache inp out i n m = .ok m') {a : ℕ}
    (ha : a < out + 8 * i ∨ out + 8 * (i + n) ≤ a) : m' a = m a := by
  induction n generalizing i m with
  | zero => rw [Except.ok.inj h]
  | succ n ih =>
    obtain ⟨m₁, hfirst, hrest⟩ := bind_ok.1 h
    have hlater := ih (by omega) hrest (by omega)
    exact hlater.trans (single_frame hplaced (by omega) hfirst (by omega))

/-- The raw atoms at later indices are still there. -/
theorem rawAt_kept {i n : ℕ} {m m' : Memory}
    (hframe : ∀ a, a < out + 8 * i ∨ out + 8 * (i + n) ≤ a → m' a = m a) {j : ℕ}
    (hj : i + n ≤ j) (hj' : j < count) : rawAt m' (inp + 8 * j) = rawAt m (inp + 8 * j) := by
  have happart : inp = out ∨ inp + 8 * count ≤ out ∨ out + 8 * count ≤ inp := hplaced
  exact rawAt_congr fun c hc => hframe _ (by omega)

/-- **The buffer of atoms.** Every atom is the transform of the raw atom that was at its index. -/
theorem transformFrom_atoms {i n : ℕ} (hin : i + n ≤ count) {m m' : Memory}
    (h : transformFrom b cache inp out i n m = .ok m') {j : ℕ} (hij : i ≤ j) (hj : j < i + n) :
    transformAtom b cache (rawAt m (inp + 8 * j)) = .ok (atomAt m' (out + 8 * j)) := by
  induction n generalizing i m with
  | zero => omega
  | succ n ih =>
    obtain ⟨m₁, hfirst, hrest⟩ := bind_ok.1 h
    have hframe : ∀ a, a < out + 8 * i ∨ out + 8 * (i + 1) ≤ a → m₁ a = m a := fun a ha =>
      single_frame hplaced (by omega) hfirst (by omega)
    rcases Nat.eq_or_lt_of_le hij with rfl | hlt
    · rw [ebppTransformDdSingle_eq b cache m (hplaced.atom (by omega))] at hfirst
      obtain ⟨atom, hatom, hput⟩ := map_ok.1 hfirst
      have hatoms : atomAt m' (out + 8 * i) = atomAt m₁ (out + 8 * i) :=
        atomAt_congr fun c hc => transformFrom_frame hplaced (by omega) hrest (by omega)
      rw [hatom, hatoms, ← hput, atomAt_putAtom]
    · have hraw := rawAt_kept hplaced hframe (Nat.succ_le_of_lt hlt) (by omega)
      rw [← hraw]
      exact ih (by omega) hrest (Nat.succ_le_of_lt hlt) (by omega)

/-- The loop stops at the first raw atom without a transform. -/
theorem transformFrom_error {i n : ℕ} (hin : i + n ≤ count) {m : Memory} {e : Fault}
    (h : transformFrom b cache inp out i n m = .error e) :
    ∃ j, i ≤ j ∧ j < i + n ∧ transformAtom b cache (rawAt m (inp + 8 * j)) = .error e ∧
      ∀ k, i ≤ k → k < j → ∃ atom, transformAtom b cache (rawAt m (inp + 8 * k)) = .ok atom := by
  induction n generalizing i m with
  | zero => exact nomatch h
  | succ n ih =>
    rcases bind_error.1 h with hfirst | ⟨m₁, hfirst, hrest⟩
    · rw [ebppTransformDdSingle_eq b cache m (hplaced.atom (by omega))] at hfirst
      exact ⟨i, le_rfl, by omega, map_error.1 hfirst, fun k hik hki => absurd hki (not_lt.2 hik)⟩
    · have hframe : ∀ a, a < out + 8 * i ∨ out + 8 * (i + 1) ≤ a → m₁ a = m a := fun a ha =>
        single_frame hplaced (by omega) hfirst (by omega)
      have hone : transformFrom b cache inp out i 1 m = .ok m₁ := by
        rw [transformFrom, hfirst]
        rfl
      obtain ⟨j, hij, hj, herror, hearlier⟩ := ih (by omega) hrest
      rw [rawAt_kept hplaced hframe hij (by omega)] at herror
      refine ⟨j, by omega, by omega, herror, fun k hik hkj => ?_⟩
      rcases Nat.eq_or_lt_of_le hik with rfl | hlt
      · exact ⟨_, transformFrom_atoms hplaced (by omega) hone le_rfl (by omega)⟩
      · rw [← rawAt_kept hplaced hframe (Nat.succ_le_of_lt hlt) (by omega)]
        exact hearlier k (Nat.succ_le_of_lt hlt) hkj

end Buffer

section Faults

variable {b : Build} {P : Fault → Prop} (h : b.StopsFor P)
include h

theorem ddCoordinate_faults (d k : ℤ) {S : ℤ} (offset : ℤ)
    (hS : S = 0 → ∀ x, FaultsIn P (b.divZero x)) : FaultsIn P (ddCoordinate b d k S offset) :=
  (h.int64 _).bind fun _ _ => (h.div64 _ hS).bind fun _ _ => (h.castInt _).bind fun _ _ => h.int _

theorem positions_faults (cache : Cache) {Va Vb Vc Vd : ℤ}
    (hS : Va + Vb + Vc + Vd = 0 → ∀ x, FaultsIn P (b.divZero x)) :
    FaultsIn P (positions b cache Va Vb Vc Vd) :=
  (ddCoordinate_faults h _ _ _ hS).bind fun _ _ => (ddCoordinate_faults h _ _ _ hS).bind fun _ _ =>
    (ddCoordinate_faults h _ _ _ hS).bind fun _ _ => (h.castInt _).bind fun _ _ => faultsIn_ok _

theorem transformAtom_faults (hdiv : ∀ x, FaultsIn P (b.divZero x)) (cache : Cache)
    (raw : RawAtom) : FaultsIn P (transformAtom b cache raw) :=
  (cordicAmp_faults h _ _).bind fun _ _ => (cordicAmp_faults h _ _).bind fun _ _ =>
    (cordicAmp_faults h _ _).bind fun _ _ => (cordicAmp_faults h _ _).bind fun _ _ =>
      positions_faults h cache fun _ => hdiv

end Faults

/-! ## The bounds of the positions -/

/-- The quotient of a product by a larger number is at most the coefficient. -/
theorem abs_tdiv_le {d k S : ℤ} (hk : 0 ≤ k) (hS : 0 < S) (hd : |d| ≤ S) :
    |(d * k).tdiv S| ≤ k := by
  rw [Int.abs_eq_natAbs] at hd ⊢
  have hproduct : (d * k).natAbs ≤ k.natAbs * S.natAbs := by
    rw [Int.natAbs_mul, mul_comm]
    exact Nat.mul_le_mul_left _ (by omega)
  have hquotient : ((d * k).tdiv S).natAbs ≤ k.natAbs := by
    rw [Int.natAbs_tdiv]
    exact Nat.div_le_of_le_mul (hproduct.trans_eq (mul_comm _ _))
  omega

/-- What is said of a coordinate: the product fits in 64 bits, the cast drops nothing, and without
the offset the coordinate is at most the coefficient. -/
structure CoordinateBounds (d k S offset : ℤ) (x : Word) : Prop where
  product : IsInt64 (d * k)
  quotient : IsInt ((d * k).tdiv S)
  value : x.toInt = (d * k).tdiv S - offset
  bound : |x.toInt + offset| ≤ k

theorem ddCoordinate_bounds (b : Build) {d k S offset : ℤ} (hS : 0 < S) (hS' : S < 2 ^ 33)
    (hd : |d| ≤ S) (hk : 0 ≤ k ∧ k ≤ 536870911)
    (hoffset : -536870912 ≤ offset ∧ offset ≤ 536870911) :
    ddCoordinate b d k S offset = .ok ((d * k).tdiv S - offset) ∧
      CoordinateBounds d k S offset (.ofInt 32 ((d * k).tdiv S - offset)) := by
  have hquotient := abs_tdiv_le hk.1 hS hd
  have hproduct : |d * k| ≤ 2 ^ 33 * 536870911 := by
    rw [abs_mul, abs_of_nonneg hk.1]
    exact mul_le_mul (hd.trans hS'.le) hk.2 hk.1 (by norm_num)
  rw [abs_le] at hproduct hquotient
  have hproduct' : IsInt64 (d * k) := by
    rw [IsInt64]
    omega
  have hquotient' : IsInt ((d * k).tdiv S) := by
    rw [IsInt]
    omega
  have hquotient64 : IsInt64 ((d * k).tdiv S) := by
    rw [IsInt64]
    omega
  have hvalue : IsInt ((d * k).tdiv S - offset) := by
    rw [IsInt]
    omega
  refine ⟨?_, hproduct', hquotient', toInt_ofInt hvalue, ?_⟩
  · rw [ddCoordinate, Build.int64_of hproduct', ok_bind, Build.div64_of hS.ne' hquotient64, ok_bind,
      Build.castInt_of hquotient', ok_bind, Build.int_of hvalue]
  · rw [toInt_ofInt hvalue, sub_add_cancel, abs_le]
    exact hquotient

/-- What is said of an atom with the given amplitudes. -/
structure AtomBounds (cache : Cache) (Va Vb Vc Vd : ℤ) (atom : Atom) : Prop where
  amplitudes : atom.Va.toInt = Va ∧ atom.Vb.toInt = Vb ∧ atom.Vc.toInt = Vc ∧ atom.Vd.toInt = Vd
  X : CoordinateBounds (Va + Vd - Vb - Vc) cache.kx.toInt (Va + Vb + Vc + Vd)
    cache.xoffset.toInt atom.X
  Y : CoordinateBounds (Va + Vb - Vc - Vd) cache.ky.toInt (Va + Vb + Vc + Vd)
    cache.yoffset.toInt atom.Y
  Q : CoordinateBounds (Va + Vc - Vb - Vd) cache.kx.toInt (Va + Vb + Vc + Vd)
    cache.qoffset.toInt atom.Q
  Sum : atom.Sum.toInt = (Va + Vb + Vc + Vd) / 4

theorem validcoef_range {w : Word} (h : ebppIsValidcoef w = true) :
    0 ≤ w.toInt ∧ w.toInt ≤ 536870911 := by
  have hle : w.toNat ≤ 536870911 := by
    simpa [ebppIsValidcoef, BitVec.le_def] using h
  rw [BitVec.toInt_eq_toNat_of_lt (by omega)]
  omega

theorem validoffset_range {w : Word} (h : ebppIsValidoffset w = true) :
    -536870912 ≤ w.toInt ∧ w.toInt ≤ 536870911 := by
  simpa [ebppIsValidoffset, inRange] using h

/-- The values of `int` that are not negative: the amplitudes. -/
def IsAmplitude (V : ℤ) : Prop := 0 ≤ V ∧ V < 2 ^ 31

instance (V : ℤ) : Decidable (IsAmplitude V) := inferInstanceAs (Decidable (_ ∧ _))

/-- The configuration that the validators of the coefficients and of the offsets accept. -/
structure CoefficientsValid (cache : Cache) : Prop where
  kx : ebppIsValidcoef cache.kx = true
  ky : ebppIsValidcoef cache.ky = true
  xoffset : ebppIsValidoffset cache.xoffset = true
  yoffset : ebppIsValidoffset cache.yoffset = true
  qoffset : ebppIsValidoffset cache.qoffset = true

theorem positions_bounds (b : Build) {cache : Cache} (hcache : CoefficientsValid cache)
    {Va Vb Vc Vd : ℤ} (hVa : IsAmplitude Va) (hVb : IsAmplitude Vb) (hVc : IsAmplitude Vc)
    (hVd : IsAmplitude Vd) (hS : 0 < Va + Vb + Vc + Vd) :
    ∃ atom, positions b cache Va Vb Vc Vd = .ok atom ∧ AtomBounds cache Va Vb Vc Vd atom := by
  obtain ⟨hVa, hVa'⟩ := hVa
  obtain ⟨hVb, hVb'⟩ := hVb
  obtain ⟨hVc, hVc'⟩ := hVc
  obtain ⟨hVd, hVd'⟩ := hVd
  have hS' : Va + Vb + Vc + Vd < 2 ^ 33 := by omega
  obtain ⟨hX, hXb⟩ := ddCoordinate_bounds b hS hS' (d := Va + Vd - Vb - Vc)
    (abs_le.2 (by omega)) (validcoef_range hcache.kx) (validoffset_range hcache.xoffset)
  obtain ⟨hY, hYb⟩ := ddCoordinate_bounds b hS hS' (d := Va + Vb - Vc - Vd)
    (abs_le.2 (by omega)) (validcoef_range hcache.ky) (validoffset_range hcache.yoffset)
  obtain ⟨hQ, hQb⟩ := ddCoordinate_bounds b hS hS' (d := Va + Vc - Vb - Vd)
    (abs_le.2 (by omega)) (validcoef_range hcache.kx) (validoffset_range hcache.qoffset)
  have hshift : (Va + Vb + Vc + Vd) >>> (2 : ℕ) = (Va + Vb + Vc + Vd) / 4 := shiftRight_eq _ 2
  have hSum : IsInt ((Va + Vb + Vc + Vd) / 4) := by
    rw [IsInt]
    omega
  have hfits : ∀ V : ℤ, 0 ≤ V → V < 2 ^ 31 → (BitVec.ofInt 32 V).toInt = V := fun V hV hV' =>
    toInt_ofInt ⟨by omega, hV'⟩
  refine ⟨⟨_, _, _, _, _, _, _, .ofInt 32 ((Va + Vb + Vc + Vd) / 4)⟩, ?_,
    ⟨hfits Va hVa hVa', hfits Vb hVb hVb', hfits Vc hVc hVc', hfits Vd hVd hVd'⟩,
    hXb, hYb, hQb, toInt_ofInt hSum⟩
  simp only [positions, hX, hY, hQ, ok_bind, hshift, Build.castInt_of hSum]
  rfl

/-- **The bounds of the position transform.** The four amplitudes of a raw atom are values of `int`
that are not negative, and their sum is positive. With an accepted configuration the products fit in
64 bits, the casts drop nothing, and the positions are at most the coefficients. The same atom is
written over the raw atom, and into a buffer apart from it. -/
theorem ebppTransformDdSingle_bounds (b : Build) {cache : Cache} (hcache : CoefficientsValid cache)
    {raw : RawAtom} {Va Vb Vc Vd : ℤ}
    (hVa : signalAmp b raw.sinVa raw.cosVa = .ok Va ∧ IsAmplitude Va)
    (hVb : signalAmp b raw.sinVb raw.cosVb = .ok Vb ∧ IsAmplitude Vb)
    (hVc : signalAmp b raw.sinVc raw.cosVc = .ok Vc ∧ IsAmplitude Vc)
    (hVd : signalAmp b raw.sinVd raw.cosVd = .ok Vd ∧ IsAmplitude Vd)
    (hS : 0 < Va + Vb + Vc + Vd) :
    ∃ atom, AtomBounds cache Va Vb Vc Vd atom ∧
      ∀ m p q, rawAt m p = raw → Placed 8 p q →
        ebppTransformDdSingle b cache p q m = .ok (putAtom m q atom) := by
  obtain ⟨atom, hatom, hbounds⟩ := positions_bounds b hcache hVa.2 hVb.2 hVc.2 hVd.2 hS
  refine ⟨atom, hbounds, fun m p q hraw hplaced => ?_⟩
  rw [ebppTransformDdSingle_eq b cache m hplaced, hraw, transformAtom, hVa.1, hVb.1, hVc.1, hVd.1]
  simp only [ok_bind, hatom]
  rfl

theorem ebppTransformDdSingle_bounds_centred :
    ∃ atom, AtomBounds { Lib.loaded.cache with kx := 10000000, ky := 10000000 }
        1649 1649 1649 1649 atom ∧
      ∀ m p q, rawAt m p = ⟨0, 2000, 0, 2000, 0, 2000, 0, 2000⟩ → Placed 8 p q →
        ebppTransformDdSingle (.strict true)
          { Lib.loaded.cache with kx := 10000000, ky := 10000000 } p q m =
            .ok (putAtom m q atom) :=
  ebppTransformDdSingle_bounds (.strict true)
    ⟨by decide, by decide, by decide, by decide, by decide⟩ ⟨by decide, by decide⟩
    ⟨by decide, by decide⟩ ⟨by decide, by decide⟩ ⟨by decide, by decide⟩ (by decide)

end LiberaDaq.Transform
