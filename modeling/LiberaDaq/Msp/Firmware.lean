import Mathlib.Data.Fin.Basic
import Mathlib.Logic.Function.Basic

/-!
# The voltage monitor on the MSP430

The firmware of the voltage monitor (`msp_adc.c`) is a main loop that converts the eight supply
voltages, declares the data ready and goes to sleep, and an interrupt handler `rx_isr` that prepares
the reply to each byte which arrives on the serial port. The two share `no_data` and the data. A
reply is shifted out while the next byte comes in, so it reaches the other side one exchange after
the command that asked for it.

The main loop takes one step at a time here, and the interrupt handler may run between any two of
them. `Sound` says what holds at each place of the loop: when data are declared ready, they are
those of the conversion that was started last, all eight of them.
-/

namespace LiberaDaq.Msp

theorem channels_ne_zero : 8 ≠ 0 := by decide

local instance neZero_channels : @NeZero ℕ Zero.ofOfNat0 8 := ⟨channels_ne_zero⟩

/-- What `ADC12MEM0` to `ADC12MEM7` hold after the `n`-th conversion. -/
abbrev Conversions := ℕ → Fin 8 → BitVec 16

/-- The place the main loop has come to. -/
inductive Main
  /-- About to start a conversion and to wait for its end. -/
  | convert
  /-- About to copy the result of one channel. -/
  | store (channel : Fin 8)
  /-- About to clear `no_data`. -/
  | publish
  /-- About to enter the low power mode. -/
  | drowse
  /-- In the low power mode. -/
  | asleep
  /-- Out of the low power mode, about to set `no_data`. -/
  | woken
  deriving DecidableEq

/-- The state of the firmware. `shortData` is the array that `short_data` and `byte_data` share, and
`conversion` counts the conversions that were started. -/
structure Firmware where
  main : Main
  noData : Bool
  shortData : Fin 8 → BitVec 16
  txbuf : BitVec 8
  conversion : ℕ

/-- The bytes of eight words, the lower byte of each word first. -/
def bytes (words : Fin 8 → BitVec 16) (k : Fin 16) : BitVec 8 :=
  (words ⟨k.1 / 2, by omega⟩ >>> (8 * (k.1 % 2))).setWidth 8

/-- `byte_data`, the view of the data that the serial port sends. -/
def Firmware.byteData (fw : Firmware) : Fin 16 → BitVec 8 := bytes fw.shortData

/-- One step of the main loop. In the low power mode it makes none. -/
def mainStep (adc : Conversions) (fw : Firmware) : Firmware :=
  match fw.main with
  | .convert => { fw with main := .store 0, conversion := fw.conversion + 1 }
  | .store c =>
    { fw with
      shortData := Function.update fw.shortData c (adc fw.conversion c)
      main := if h : c.1 + 1 < 8 then .store ⟨c.1 + 1, h⟩ else .publish }
  | .publish => { fw with noData := false, main := .drowse }
  | .drowse => { fw with main := .asleep }
  | .asleep => fw
  | .woken => { fw with noData := true, main := .convert }

/-- `_BIC_SR_IRQ(LPM0_bits)`: a main loop that does not sleep goes on as it would have. -/
def Main.wake : Main → Main
  | .asleep => .woken
  | main => main

/-- The interrupt handler `rx_isr`, with the byte that arrived. -/
def rxIsr (rxbuf : BitVec 8) (fw : Firmware) : Firmware :=
  if fw.noData then { fw with txbuf := 0xef }
  else if h : rxbuf.toNat < 16 then { fw with txbuf := fw.byteData ⟨rxbuf.toNat, h⟩ }
  else if rxbuf.toNat = 16 then { fw with txbuf := 0xef, main := fw.main.wake }
  else { fw with txbuf := rxbuf + 1 }

/-- The firmware when it goes to sleep for the first time, which is when it lets interrupts in. -/
def firstSleep (adc : Conversions) : Firmware where
  main := .asleep
  noData := false
  shortData := adc 1
  txbuf := 0xaa
  conversion := 1

/-! ## What holds at each place of the main loop -/

/-- At each place of the main loop: whether data are declared ready, and which words belong to the
conversion that was started last. -/
def Firmware.Sound (adc : Conversions) (fw : Firmware) : Prop :=
  match fw.main with
  | .convert => fw.noData = true
  | .store c => fw.noData = true ∧ ∀ d < c, fw.shortData d = adc fw.conversion d
  | .publish => fw.noData = true ∧ fw.shortData = adc fw.conversion
  | .drowse | .asleep | .woken => fw.noData = false ∧ fw.shortData = adc fw.conversion

variable {adc : Conversions} {fw : Firmware}

theorem firstSleep_sound : (firstSleep adc).Sound adc := ⟨rfl, rfl⟩

/-- A step of the main loop keeps to what holds at each place. -/
theorem mainStep_sound (h : fw.Sound adc) : (mainStep adc fw).Sound adc := by
  obtain ⟨main, noData, shortData, txbuf, conversion⟩ := fw
  cases main with
  | convert => exact ⟨h, fun d hd => absurd hd (by simp)⟩
  | store c =>
    obtain ⟨hdata, hstored⟩ := h
    simp only at hdata hstored
    -- the words up to and with the one just copied
    have hupto : ∀ d ≤ c, Function.update shortData c (adc conversion c) d = adc conversion d := by
      intro d hd
      rcases eq_or_ne d c with rfl | hne
      · simp
      · rw [Function.update_of_ne hne]
        exact hstored d (Nat.lt_of_le_of_ne hd (Fin.val_ne_of_ne hne))
    by_cases hlast : c.1 + 1 < 8
    · simp only [mainStep, dif_pos hlast, Firmware.Sound]
      exact ⟨hdata, fun d hd => hupto d (by simp only [Fin.lt_def, Fin.le_def] at *; omega)⟩
    · simp only [mainStep, dif_neg hlast, Firmware.Sound]
      refine ⟨hdata, ?_⟩
      ext1 d
      exact hupto d (by simp only [Fin.le_def]; omega)
  | publish => exact ⟨rfl, h.2⟩
  | drowse => exact h
  | asleep => exact h
  | woken => exact rfl

/-- The data are ready and the main loop leaves them alone until it is woken. -/
def Firmware.Settled (fw : Firmware) : Prop :=
  fw.noData = false ∧ (fw.main = .drowse ∨ fw.main = .asleep)

/-- Data that are ready are settled, except just after the main loop was woken. -/
theorem Firmware.Sound.settled (h : fw.Sound adc) (hdata : fw.noData = false)
    (hmain : fw.main ≠ .woken) : fw.Settled := by
  obtain ⟨main, noData, shortData, txbuf, conversion⟩ := fw
  simp only at hdata hmain
  subst hdata
  cases main <;> simp_all [Firmware.Sound, Firmware.Settled]

/-- Settled data are those of the conversion that was started last. -/
theorem Firmware.Sound.shortData_eq (h : fw.Sound adc) (hsettled : fw.Settled) :
    fw.shortData = adc fw.conversion := by
  obtain ⟨main, noData, shortData, txbuf, conversion⟩ := fw
  obtain ⟨-, hmain | hmain⟩ := hsettled <;> simp only at hmain <;> subst hmain <;> exact h.2

theorem Firmware.Settled.mainStep (h : fw.Settled) (adc : Conversions) :
    (mainStep adc fw).Settled ∧ (mainStep adc fw).byteData = fw.byteData ∧
      (mainStep adc fw).txbuf = fw.txbuf := by
  obtain ⟨main, noData, shortData, txbuf, conversion⟩ := fw
  obtain ⟨hdata, hmain | hmain⟩ := h <;> simp only at hmain <;> subst hmain
  · exact ⟨⟨hdata, .inr rfl⟩, rfl, rfl⟩
  · exact ⟨⟨hdata, .inr rfl⟩, rfl, rfl⟩

/-- The main loop never touches the reply that waits to be shifted out. -/
@[simp] theorem mainStep_txbuf : (mainStep adc fw).txbuf = fw.txbuf := by
  unfold mainStep
  split <;> rfl

/-! ## What the interrupt handler answers -/

/-- The interrupt handler keeps to what holds at each place: it wakes the main loop at most. -/
theorem rxIsr_sound {rxbuf : BitVec 8} (h : fw.Sound adc) : (rxIsr rxbuf fw).Sound adc := by
  obtain ⟨main, noData, shortData, txbuf, conversion⟩ := fw
  unfold rxIsr
  split
  · exact h
  · split
    · exact h
    · split
      · cases main <;> exact h
      · exact h

/-- While there are no data, every command is answered with `0xef`. -/
theorem rxIsr_noData {rxbuf : BitVec 8} (h : fw.noData = true) :
    rxIsr rxbuf fw = { fw with txbuf := 0xef } := by
  simp [rxIsr, h]

/-- The command that starts a conversion is answered with `0xef`, with data or without. -/
theorem rxIsr_start : (rxIsr 0x10 fw).txbuf = 0xef := by
  unfold rxIsr
  split
  · rfl
  · simp

/-- When data are ready, the command that tests for them is answered with its successor. -/
theorem rxIsr_test (h : fw.noData = false) : rxIsr 0xa5 fw = { fw with txbuf := 0xa6 } := by
  simp [rxIsr, h]

/-- When data are ready, an index is answered with the byte of that index. -/
theorem rxIsr_index (h : fw.noData = false) (k : Fin 16) :
    rxIsr (BitVec.ofNat 8 k) fw = { fw with txbuf := fw.byteData k } := by
  have hk : (BitVec.ofNat 8 k.1).toNat = k.1 := by
    rw [BitVec.toNat_ofNat]
    exact Nat.mod_eq_of_lt (by omega)
  simp [rxIsr, h, hk]

end LiberaDaq.Msp
