import LiberaDaq.Dd.Conversions
import LiberaDaq.Kernel.TrigDevice

/-!
# The two addresses of an atom

The circular buffer is addressed by LMT (`get_circ_offset_lmt`), and there is a second function for
machine times (`get_circ_offset_mt`). The first rounds the distance from the start of the buffer to
the nearest machine cycle, the second rounds the start itself down. The offset that `libera_set_LMT`
installs consists of whole cycles, while `HB_start_lmt` is the same on every instrument, whatever
its decimation, so that the two give one address exactly when not more than half a cycle of
`HB_start_lmt` is left over (`circ_offsets_agree_iff`).
-/

namespace LiberaDaq.Dd

open LiberaDaq.Cspi

variable {g : Clocks} {mt : HwTime}

/-- `get_circ_offset_mt`. -/
def Clocks.getCircOffsetMt (g : Clocks) (mt : HwTime) : ℕ :=
  (mt - divU64 (g.off + g.hbStart) g.d).toNat % ddCircbufAtoms

/-- The value of `HB_start_lmt` that `libera_init_devs` installs. -/
def initHbStart : HwTime := 0x8000000

/-- The start of the buffer as the driver installs it. -/
structure Clocks.Installed (g : Clocks) : Prop where
  hbStart : g.hbStart = initHbStart
  off : g.d.toNat ∣ g.off.toNat

/-- The machine time is not before the start of the buffer, and nothing overflows on the way to its
address. -/
structure Clocks.Addressed (g : Clocks) (mt : HwTime) : Prop where
  start : g.off.toNat + g.hbStart.toNat < 2 ^ 64
  lmt : mt.toNat * g.d.toNat < 2 ^ 64
  after : g.off.toNat + g.hbStart.toNat ≤ mt.toNat * g.d.toNat
  rounded : mt.toNat * g.d.toNat - (g.off.toNat + g.hbStart.toNat) + g.d.toNat / 2 < 2 ^ 64

/-- `libera_set_LMT` installs whole decimated machine cycles. -/
theorem dvd_setLMT {k : Kernel.Global} {s : Kernel.TrigDevice} (hdfa : k.dfa ≠ 0)
    (h : k.d.toNat * k.dfa.toNat < 2 ^ 32) :
    k.d.toNat ∣ (s.setLMT k).settime.lmtOff.toNat := by
  have hperiod : (k.d * k.dfa).toNat = k.d.toNat * k.dfa.toNat := by
    rw [BitVec.toNat_mul, Nat.mod_eq_of_lt h]
  rw [Kernel.TrigDevice.setLMT]
  dsimp only
  rw [if_pos hdfa]
  generalize (s.settime.lmtRef - s.settime.mcphi - _ + s.settime.lmtOffPll : BitVec 64) = all
  have hrem : (all % (k.d * k.dfa).setWidth 64).toNat = all.toNat % (k.d.toNat * k.dfa.toNat) := by
    rw [BitVec.toNat_umod, BitVec.toNat_setWidth, hperiod,
      Nat.mod_eq_of_lt (b := 2 ^ 64) (by omega)]
  rw [BitVec.toNat_sub_of_le (BitVec.le_def.2 (hrem ▸ Nat.mod_le _ _)), hrem]
  exact (Nat.dvd_mul_right _ _).trans (Nat.dvd_sub_mod _)

/-! ## The start of the buffer -/

theorem Clocks.Addressed.toNat_start (h : g.Addressed mt) :
    (g.off + g.hbStart).toNat = g.off.toNat + g.hbStart.toNat := by
  rw [BitVec.toNat_add, Nat.mod_eq_of_lt h.start]

/-- What is left over of the start is left over of `HB_start_lmt`. -/
theorem Clocks.Installed.start_mod (hg : g.Installed) :
    (g.off.toNat + g.hbStart.toNat) % g.d.toNat = initHbStart.toNat % g.d.toNat := by
  obtain ⟨k, hk⟩ := hg.off
  rw [hg.hbStart, hk, Nat.mul_add_mod]

/-- The cycles from the start of the buffer on, as `get_circ_offset_mt` counts them. -/
theorem toNat_sub_start (h : g.Addressed mt) :
    (mt - divU64 (g.off + g.hbStart) g.d).toNat =
      mt.toNat - (g.off.toNat + g.hbStart.toNat) / g.d.toNat := by
  have hquotient : (divU64 (g.off + g.hbStart) g.d).toNat =
      (g.off.toNat + g.hbStart.toNat) / g.d.toNat := by
    rw [divU64_toNat, h.toNat_start]
  have hle : (g.off.toNat + g.hbStart.toNat) / g.d.toNat ≤ mt.toNat :=
    Nat.div_le_of_le_mul (by rw [mul_comm]; exact h.after)
  rw [BitVec.toNat_sub_of_le (BitVec.le_def.2 (hquotient ▸ hle)), hquotient]

/-- What `get_circ_offset_lmt` divides. -/
theorem toNat_fromStart (h : g.Addressed mt) : (g.fromStart (g.mt2lmt mt)).toNat =
    mt.toNat * g.d.toNat - (g.off.toNat + g.hbStart.toNat) + g.d.toNat / 2 := by
  have hlmt := toNat_mt2lmt h.lmt
  have hle : (g.off + g.hbStart).toNat ≤ (g.mt2lmt mt).toNat := by
    rw [hlmt, h.toNat_start]
    exact h.after
  have hhalf : (wide (g.d / 2)).toNat = g.d.toNat / 2 := wide_toNat _
  rw [Clocks.fromStart, BitVec.toNat_add, BitVec.toNat_sub_of_le (BitVec.le_def.2 hle), hlmt,
    h.toNat_start, hhalf, Nat.mod_eq_of_lt h.rounded]

/-! ## The rounding -/

/-- A distance of `m` cycles less a part `r` of one, rounded to the nearest cycle. -/
theorem rounded_div {d m r start : ℕ} (hr : start % d = r) (hle : start ≤ m * d) (hd : 0 < d) :
    (m * d - start + d / 2) / d = m - start / d - if r ≤ d / 2 then 0 else 1 := by
  have hlt : r < d := hr ▸ Nat.mod_lt _ hd
  have hsplit : start = start / d * d + r := by rw [← hr, Nat.div_add_mod']
  obtain ⟨q, hq⟩ : ∃ q, start / d = q := ⟨_, rfl⟩
  rw [hq] at hsplit ⊢
  have hqm : q ≤ m := Nat.le_of_mul_le_mul_right (by omega) hd
  obtain ⟨n, rfl⟩ := Nat.exists_eq_add_of_le hqm
  rw [hsplit, Nat.add_mul] at hle
  rw [hsplit, Nat.add_mul, Nat.add_sub_cancel_left, Nat.add_sub_add_left]
  split
  · refine Nat.div_eq_of_lt_le ?_ ?_
    · rw [Nat.sub_zero]
      omega
    · rw [Nat.sub_zero, Nat.add_mul, Nat.one_mul]
      omega
  · next hround =>
    obtain ⟨k, rfl⟩ : ∃ k, n = k + 1 := Nat.exists_eq_succ_of_ne_zero (by rintro rfl; omega)
    rw [Nat.add_mul, Nat.one_mul] at hle ⊢
    refine Nat.div_eq_of_lt_le ?_ ?_
    · rw [Nat.add_sub_cancel]
      omega
    · rw [Nat.add_sub_cancel, Nat.add_mul, Nat.one_mul]
      omega

/-- The address from LMT: that of the cycle, or the one before it. -/
theorem getCircOffsetLmt_mt2lmt (hg : g.Installed) (h : g.Addressed mt) :
    g.getCircOffsetLmt (g.mt2lmt mt) = (mt.toNat - (g.off.toNat + g.hbStart.toNat) / g.d.toNat -
      if initHbStart.toNat % g.d.toNat ≤ g.d.toNat / 2 then 0 else 1) % ddCircbufAtoms := by
  rw [Clocks.getCircOffsetLmt, divU64_toNat, toNat_fromStart h,
    rounded_div hg.start_mod h.after g.d_pos]

/-- The remainder of a start that is rounded up leaves a cycle to spare. -/
theorem cycles_pos (hg : g.Installed) (h : g.Addressed mt)
    (hrest : ¬initHbStart.toNat % g.d.toNat ≤ g.d.toNat / 2) :
    0 < mt.toNat - (g.off.toNat + g.hbStart.toNat) / g.d.toNat := by
  have hsplit := Nat.div_add_mod' (g.off.toNat + g.hbStart.toNat) g.d.toNat
  have hmod := hg.start_mod
  have hafter := h.after
  have hlt : (g.off.toNat + g.hbStart.toNat) / g.d.toNat * g.d.toNat < mt.toNat * g.d.toNat := by
    omega
  exact Nat.sub_pos_of_lt (Nat.lt_of_mul_lt_mul_right hlt)

/-- **The two addresses.** For every decimation, every offset of whole cycles and every machine
time from the start of the buffer on, the two functions name the same atom if and only if not more
than half a cycle of `HB_start_lmt` is left over. -/
theorem circ_offsets_agree_iff (g : Clocks) (mt : HwTime) (hg : g.Installed)
    (h : g.Addressed mt) : g.getCircOffsetMt mt = g.getCircOffsetLmt (g.mt2lmt mt) ↔
      initHbStart.toNat % g.d.toNat ≤ g.d.toNat / 2 := by
  rw [Clocks.getCircOffsetMt, toNat_sub_start h, getCircOffsetLmt_mt2lmt hg h]
  constructor
  · intro heq
    by_contra hrest
    have hpos := cycles_pos hg h hrest
    rw [if_neg hrest, ddCircbufAtoms] at heq
    omega
  · intro hrest
    rw [if_pos hrest, Nat.sub_zero]

theorem pos_220 : 0 < (220 : Word).toNat := by decide

theorem pos_128 : 0 < (128 : Word).toNat := by decide

/-- The clocks of an instrument that decimates by 220, as the driver installs them. -/
def decimatedBy220 : Clocks := ⟨220, pos_220, 1170000000, 0, initHbStart⟩

/-- Of `HB_start_lmt` 128 of the 220 samples of a cycle are left over there, so that the address
from LMT is that of the atom before. -/
theorem addresses_differ : ¬∀ (g : Clocks) (mt : HwTime), g.Installed → g.Addressed mt →
    g.getCircOffsetMt mt = g.getCircOffsetLmt (g.mt2lmt mt) := by
  intro h
  have hg : decimatedBy220.Installed := ⟨rfl, by decide⟩
  have hmt : decimatedBy220.Addressed 1000000 :=
    ⟨by decide, by decide, by decide, by decide⟩
  exact absurd (h _ _ hg hmt) (by decide)

/-- The clocks of an instrument that decimates by 128. -/
def decimatedBy128 : Clocks := ⟨128, pos_128, 1170000000, 0, initHbStart⟩

theorem circ_offsets_agree_128 :
    decimatedBy128.getCircOffsetMt 1048600 =
      decimatedBy128.getCircOffsetLmt (decimatedBy128.mt2lmt 1048600) ↔
      initHbStart.toNat % decimatedBy128.d.toNat ≤ decimatedBy128.d.toNat / 2 :=
  circ_offsets_agree_iff _ _ ⟨rfl, by decide⟩ ⟨by decide, by decide, by decide, by decide⟩

end LiberaDaq.Dd
