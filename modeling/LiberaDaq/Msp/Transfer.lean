import Mathlib.Data.Fin.VecNotation
import LiberaDaq.Interaction.Path
import LiberaDaq.Msp.Firmware

/-!
# Reading the supply voltages

The driver (`msp_main.c`) asks the voltage monitor for the eight voltages. `msp_transfer` starts a
conversion, tests until the monitor is ready, and then sends the sixteen indices; the reply to each
exchange is the answer to the byte of the exchange before.

`System` holds the driver and the firmware of the monitor side by side. A run interleaves the
exchanges of the driver with the steps of the firmware's main loop in any order, as long as it is
`Prompt`: when the main loop was woken, it sets `no_data` before the next exchange is complete.
`Agrees` ties the place of the driver to the state of the firmware, and with it every transfer reads
the sixteen bytes of one conversion (`mspTransfer_bytes`).
-/

namespace LiberaDaq.Msp

open Interaction

/-! ## The driver -/

/-- `MSP_PROTO_CONV_START`. -/
def convStart : BitVec 32 := 0x10

/-- `MSP_PROTO_CONV_TEST`. -/
def convTest : BitVec 32 := 0xa5

/-- `MSP_PROTO_CONV_IN_PROGRESS`. -/
def convInProgress : BitVec 32 := 0xef

/-- `MSP_PROTO_END`. -/
def protoEnd : ℕ := 0x10

def EBADE : ℤ := 52
def EFAULT : ℤ := 14

/-- `sizeof(msp_atom_t)`: eight integers. -/
def sizeofAtom : ℤ := 32

/-- `res_coeff`, of each channel. -/
def resCoeff : Fin 8 → ℤ × ℤ :=
  ![(101, 100), (101, 100), (120, 100), (1511, 1000), (250, 100), (611, 100), (315, 100),
    (290, 100)]

/-- A voltage of `msp_transform` after the two scalings, by `MSP_ADC_VREF` over `MSP_ADC_RANGE` and
by the resistors. -/
def scaled (data : Fin 16 → BitVec 32) (i : Fin 8) : ℤ :=
  let counts := (data ⟨2 * i + 1, by omega⟩ <<< 8 ||| data ⟨2 * i, by omega⟩).toInt
  ((counts * 2500).tdiv 4096 * (resCoeff i).1).tdiv (resCoeff i).2

/-- `msp_transform`: the two symmetric supplies are measured against another voltage. -/
def mspTransform (data : Fin 16 → BitVec 32) (i : Fin 8) : ℤ :=
  if i = 6 then scaled data 6 - (scaled data 5 * 1500).tdiv 1000
  else if i = 7 then scaled data 7 - 5500 * 1500 / 1000
  else scaled data i

/-- What `msp_transfer` does next. -/
inductive Stage
  /-- The exchange that starts a conversion. -/
  | start
  /-- The exchange that tests for the end of the conversion, and its repetitions. -/
  | test
  /-- The exchange that sends the first index. -/
  | first
  /-- The exchange of the loop over the other indices. -/
  | data (j : ℕ)
  /-- The exchange after the loop. -/
  | last
  /-- Transforming what was received and copying it to the user. -/
  | deliver
  /-- No transfer is under way. -/
  | returned
  deriving DecidableEq

/-- The driver: the place and the local variables of `msp_transfer`, the device's `RX`, and what the
user's buffer received. -/
structure Driver where
  stage : Stage
  atoms : ℕ
  i : ℕ
  ret : ℤ
  seq : ℕ
  buf : ℕ → BitVec 32
  copied : List (Fin 8 → ℤ)

/-- The word that the next exchange sends. -/
def Driver.tx (d : Driver) : Option (BitVec 32) :=
  match d.stage with
  | .start => some convStart
  | .test => some convTest
  | .first => some (BitVec.ofNat 32 d.seq)
  | .data j => some (BitVec.ofNat 32 j)
  | .last => some (BitVec.ofNat 32 (protoEnd - 1))
  | .deliver | .returned => none

/-- `dev->RX.buf[dev->RX.seq++] = rx`. -/
def Driver.store (rx : BitVec 32) (d : Driver) : Driver :=
  { d with buf := Function.update d.buf d.seq rx, seq := d.seq + 1 }

/-- What `msp_transfer` does with the word that an exchange received. -/
def Driver.receive (rx : BitVec 32) (d : Driver) : Driver :=
  match d.stage with
  | .start => { d with stage := .test }
  | .test => if rx = convInProgress then d else { d with stage := .first, seq := 0 }
  | .first =>
    if rx ≠ convTest + 1 then { d with stage := .returned, ret := -EBADE }
    else { d with stage := .data 1 }
  | .data j => { d.store rx with stage := if j + 1 < protoEnd then .data (j + 1) else .last }
  | .last => { d.store rx with stage := .deliver }
  | .deliver | .returned => d

/-- The end of a turn of the loop over the atoms. -/
def Driver.deliver (failed : Bool) (d : Driver) : Driver :=
  if failed then { d with stage := .returned, ret := -EFAULT }
  else
    { d with
      copied := d.copied ++ [mspTransform fun k => d.buf k]
      ret := d.ret + sizeofAtom
      i := d.i + 1
      stage := if d.i + 1 < d.atoms then .start else .returned }

/-- A call of `msp_transfer`. -/
def Driver.call (atoms : ℕ) (d : Driver) : Driver :=
  { d with
    atoms := atoms
    i := 0
    ret := 0
    copied := []
    stage := if 0 < atoms then .start else .returned }

/-! ## The two sides together -/

/-- The driver and the firmware of the voltage monitor. -/
structure System where
  driver : Driver
  firmware : Firmware

inductive Move
  /-- An exchange completes, and the firmware's interrupt handler runs. -/
  | exchange
  /-- The firmware's main loop makes a step. -/
  | main
  /-- What was received is transformed and copied to the user, which may fail. -/
  | deliver (failed : Bool)
  /-- `msp_transfer` is called. -/
  | call (atoms : ℕ)
  deriving DecidableEq

/-- `ssp_exchange` on both sides. The serial port has frames of eight bits. -/
def System.exchange (tx : BitVec 32) (s : System) : System where
  driver := s.driver.receive (s.firmware.txbuf.setWidth 32)
  firmware := rxIsr (tx.setWidth 8) s.firmware

def step (adc : Conversions) (s : System) : Move → System
  | .exchange =>
    match s.driver.tx with
    | some tx => s.exchange tx
    | none => s
  | .main => { s with firmware := mainStep adc s.firmware }
  | .deliver failed => { s with driver := s.driver.deliver failed }
  | .call atoms => { s with driver := s.driver.call atoms }

/-- The driver makes the move that is due, and an exchange completes only when the main loop, if it
was woken, has set `no_data`. -/
def Prompt (s : System) : Move → Prop
  | .exchange => s.driver.tx.isSome ∧ s.firmware.main ≠ .woken
  | .main => True
  | .deliver _ => s.driver.stage = .deliver
  | .call _ => s.driver.stage = .returned

instance (s : System) (m : Move) : Decidable (Prompt s m) := by
  cases m <;> unfold Prompt <;> infer_instance

/-- The driver after `msp_init_dev`, and the firmware when it sleeps for the first time. -/
def boot (adc : Conversions) : System where
  driver := ⟨.returned, 0, 0, 0, 0, fun _ => 0, []⟩
  firmware := firstSleep adc

/-! ## What ties the two sides together -/

/-- The driver has stored the first `n` bytes of data which the firmware leaves alone. -/
structure Stored (s : System) (n : ℕ) : Prop where
  settled : s.firmware.Settled
  seq : s.driver.seq = n
  buf : ∀ k : Fin 16, k.1 < n → s.driver.buf k = (s.firmware.byteData k).setWidth 32

/-- The reply that waits in the firmware, and what the driver has stored, at each place of the
driver. -/
def Awaits (s : System) : Prop :=
  match s.driver.stage with
  | .start | .returned => True
  | .test => s.firmware.txbuf = 0xef ∨ s.firmware.txbuf = 0xa6 ∧ s.firmware.Settled
  | .first => s.firmware.txbuf = 0xa6 ∧ Stored s 0
  | .data j =>
    ∃ k : Fin 16, k.1 + 1 = j ∧ j < 16 ∧ s.firmware.txbuf = s.firmware.byteData k ∧ Stored s k
  | .last => s.firmware.txbuf = s.firmware.byteData 15 ∧ Stored s 15
  | .deliver => Stored s 16

/-- The invariant of all runs. -/
structure Agrees (adc : Conversions) (s : System) : Prop where
  sound : s.firmware.Sound adc
  awaits : Awaits s
  under_way : s.driver.stage ≠ .returned → 0 ≤ s.driver.ret
  not_refused : s.driver.ret ≠ -EBADE

variable {adc : Conversions} {s : System}

theorem boot_agrees : Agrees adc (boot adc) where
  sound := firstSleep_sound
  awaits := trivial
  under_way h := absurd rfl h
  not_refused := show (0 : ℤ) ≠ -EBADE by decide

/-! ### A step of the firmware's main loop -/

theorem Stored.main {n : ℕ} (h : Stored s n) :
    Stored { s with firmware := mainStep adc s.firmware } n := by
  obtain ⟨hsettled, hdata, -⟩ := h.settled.mainStep adc
  refine ⟨hsettled, h.seq, fun k hk => ?_⟩
  simp only [hdata]
  exact h.buf k hk

theorem Awaits.main (h : Awaits s) : Awaits { s with firmware := mainStep adc s.firmware } := by
  obtain ⟨driver, fw⟩ := s
  unfold Awaits at h ⊢
  simp only [mainStep_txbuf]
  cases hstage : driver.stage with simp only [hstage] at h ⊢
  | test =>
    rcases h with hwait | ⟨hready, hsettled⟩
    · exact .inl hwait
    · exact .inr ⟨hready, (hsettled.mainStep adc).1⟩
  | first => exact ⟨h.1, h.2.main⟩
  | data j =>
    obtain ⟨k, hkj, hj, hreply, hstored⟩ := h
    refine ⟨k, hkj, hj, ?_, hstored.main⟩
    rw [hreply, (hstored.settled.mainStep adc).2.1]
  | last => exact ⟨h.1.trans (by rw [(h.2.settled.mainStep adc).2.1]), h.2.main⟩
  | deliver => exact h.main

/-! ### An exchange -/

/-- The byte that waited is stored behind those before it. -/
theorem Stored.next {s' : System} {k : Fin 16} {reply : BitVec 8} (h : Stored s k)
    (hreply : s.firmware.txbuf = s.firmware.byteData k)
    (hseq : s'.driver.seq = s.driver.seq + 1)
    (hbuf : s'.driver.buf =
      Function.update s.driver.buf s.driver.seq (s.firmware.txbuf.setWidth 32))
    (hfw : s'.firmware = { s.firmware with txbuf := reply }) : Stored s' (k + 1) := by
  have hdata : s'.firmware.byteData = s.firmware.byteData := by rw [hfw]; rfl
  refine ⟨by rw [hfw]; exact h.settled, by rw [hseq, h.seq], fun d hd => ?_⟩
  rw [hbuf, hdata, h.seq]
  rcases eq_or_ne d k with rfl | hne
  · rw [Function.update_self, hreply]
  · have hlt : d.1 < k.1 := by
      have := Fin.val_ne_of_ne hne
      omega
    rw [Function.update_of_ne hlt.ne]
    exact h.buf d hlt

/-- The index that the driver sends is answered with the byte of that index. -/
theorem rxIsr_tx {fw : Firmware} (h : fw.noData = false) (k : Fin 16) :
    rxIsr ((BitVec.ofNat 32 k.1).setWidth 8) fw = { fw with txbuf := fw.byteData k } := by
  rw [← rxIsr_index h k]
  congr 1
  rw [BitVec.setWidth_ofNat_of_le (by omega)]

/-- **Each exchange keeps the two sides in agreement**: what the driver makes of the reply fits the
answer that the firmware now prepares. -/
theorem Agrees.awaits_exchange (h : Agrees adc s) {tx : BitVec 32} (htx : s.driver.tx = some tx)
    (hprompt : s.firmware.main ≠ .woken) : Awaits (s.exchange tx) := by
  obtain ⟨hsound, hawaits, -, -⟩ := h
  obtain ⟨⟨stage, atoms, i, ret, seq, buf, copied⟩, fw⟩ := s
  cases stage with simp only [Driver.tx, Option.some.injEq, reduceCtorEq] at htx
  | start =>
    subst htx
    exact .inl rxIsr_start
  | test =>
    subst htx
    rcases hawaits with hwait | ⟨hready, hsettled⟩ <;> dsimp only at *
    · -- not ready at the last exchange: the driver tests again
      have hdriver :
          Driver.receive (fw.txbuf.setWidth 32) ⟨.test, atoms, i, ret, seq, buf, copied⟩ =
            ⟨.test, atoms, i, ret, seq, buf, copied⟩ := by
        simp [Driver.receive, hwait, convInProgress]
      simp only [System.exchange, hdriver, Awaits]
      cases hdata : fw.noData with
      | true => exact .inl (by rw [rxIsr_noData hdata])
      | false =>
        refine .inr ?_
        rw [show convTest.setWidth 8 = 0xa5 from rfl, rxIsr_test hdata]
        exact ⟨rfl, hsound.settled hdata hprompt⟩
    · -- the driver goes on, and its test is answered once more
      have hdriver :
          Driver.receive (fw.txbuf.setWidth 32) ⟨.test, atoms, i, ret, seq, buf, copied⟩ =
            ⟨.first, atoms, i, ret, 0, buf, copied⟩ := by
        simp [Driver.receive, hready, convInProgress]
      simp only [System.exchange, hdriver, Awaits]
      rw [show convTest.setWidth 8 = 0xa5 from rfl, rxIsr_test hsettled.1]
      exact ⟨rfl, hsettled, rfl, fun k hk => absurd hk (by omega)⟩
  | first =>
    obtain ⟨hreply, hstored⟩ := hawaits
    subst htx
    have hseq : seq = 0 := hstored.seq
    subst hseq
    have hdriver : Driver.receive (fw.txbuf.setWidth 32) ⟨.first, atoms, i, ret, 0, buf, copied⟩ =
        ⟨.data 1, atoms, i, ret, 0, buf, copied⟩ := by
      have hreply : fw.txbuf = 0xa6 := hreply
      simp [Driver.receive, hreply, convTest]
    simp only [System.exchange, hdriver, Awaits]
    refine ⟨0, rfl, by omega, ?_⟩
    have hanswer := rxIsr_tx hstored.settled.1 0
    simp only [Fin.val_zero] at hanswer
    rw [hanswer]
    exact ⟨rfl, hstored.settled, rfl, fun k hk => absurd hk (by omega)⟩
  | data j =>
    obtain ⟨k, hkj, hj, hreply, hstored⟩ := hawaits
    subst htx
    have hanswer := rxIsr_tx hstored.settled.1 ⟨j, hj⟩
    by_cases hmore : j + 1 < protoEnd
    · simp only [System.exchange, Driver.receive, hmore, ↓reduceIte, Driver.store, Awaits, hanswer]
      refine ⟨⟨j, hj⟩, rfl, hmore, rfl, ?_⟩
      simpa only [hkj] using Stored.next hstored hreply rfl rfl rfl
    · have hlast : j = 15 := by simp only [protoEnd] at hmore; omega
      subst hlast
      simp only [System.exchange, Driver.receive, hmore, ↓reduceIte, Driver.store, Awaits, hanswer]
      refine ⟨rfl, ?_⟩
      simpa only [hkj] using Stored.next hstored hreply rfl rfl rfl
  | last =>
    obtain ⟨hreply, hstored⟩ := hawaits
    subst htx
    have hanswer := rxIsr_tx hstored.settled.1 15
    simp only [System.exchange, Driver.receive, Driver.store, Awaits, protoEnd]
    exact Stored.next hstored hreply rfl rfl hanswer

/-- No exchange changes what the call has returned so far, as long as the first index is not
refused. -/
theorem Awaits.receive_ret (h : Awaits s) :
    (s.driver.receive (s.firmware.txbuf.setWidth 32)).ret = s.driver.ret := by
  obtain ⟨⟨stage, atoms, i, ret, seq, buf, copied⟩, fw⟩ := s
  cases stage with simp only [Driver.receive, Driver.store]
  | test => split <;> rfl
  | first =>
    have hreply : fw.txbuf = 0xa6 := h.1
    simp [hreply, convTest]

/-- No exchange ends the transfer. -/
theorem Awaits.receive_stage (h : Awaits s) (hstage : s.driver.stage ≠ .returned) :
    (s.driver.receive (s.firmware.txbuf.setWidth 32)).stage ≠ .returned := by
  obtain ⟨⟨stage, atoms, i, ret, seq, buf, copied⟩, fw⟩ := s
  cases stage with simp only [Driver.receive, Driver.store]
  | start => simp
  | test => split <;> simp
  | first =>
    have hreply : fw.txbuf = 0xa6 := h.1
    simp [hreply, convTest]
  | data j => split <;> simp
  | last => simp
  | deliver => simp
  | returned => exact absurd rfl hstage

/-- An exchange copies nothing to the user. -/
theorem Driver.receive_copied {d : Driver} {rx : BitVec 32} : (d.receive rx).copied = d.copied := by
  unfold Driver.receive
  cases d.stage with dsimp only [Driver.store]
  | test => split <;> rfl
  | first => split <;> rfl

/-- The driver has work to do in a transfer that an exchange belongs to. -/
theorem Driver.stage_of_tx {d : Driver} {tx : BitVec 32} (h : d.tx = some tx) :
    d.stage ≠ .returned := by
  intro hreturned
  simp [Driver.tx, hreturned] at h

/-! ## Every run -/

/-- **Every move keeps the two sides in agreement.** -/
theorem agrees_step (h : Agrees adc s) {m : Move} (hm : Prompt s m) :
    Agrees adc (step adc s m) := by
  cases m with
  | exchange =>
    obtain ⟨hsome, hprompt⟩ := hm
    obtain ⟨tx, htx⟩ := Option.isSome_iff_exists.1 hsome
    have hret : (s.exchange tx).driver.ret = s.driver.ret := h.awaits.receive_ret
    simp only [step, htx]
    refine ⟨rxIsr_sound h.sound, h.awaits_exchange htx hprompt, fun _ => ?_, ?_⟩
    · rw [hret]
      exact h.under_way (Driver.stage_of_tx htx)
    · rw [hret]
      exact h.not_refused
  | main => exact ⟨mainStep_sound h.sound, h.awaits.main, h.under_way, h.not_refused⟩
  | deliver failed =>
    have hstage : s.driver.stage = .deliver := hm
    have hret := h.under_way (by simp [hstage])
    cases failed with
    | true => exact ⟨h.sound, trivial, fun hne => absurd rfl hne, show -EFAULT ≠ -EBADE by decide⟩
    | false =>
      have hgrows : 0 ≤ s.driver.ret + sizeofAtom := by
        simp only [sizeofAtom]
        omega
      refine ⟨h.sound, ?_, fun _ => hgrows, ?_⟩
      · by_cases hmore : s.driver.i + 1 < s.driver.atoms <;>
          simp [step, Driver.deliver, Awaits, hmore]
      · simp only [step, Driver.deliver, Bool.false_eq_true, ↓reduceIte, EBADE]
        omega
  | call atoms =>
    refine ⟨h.sound, ?_, fun _ => le_refl (0 : ℤ), show (0 : ℤ) ≠ -EBADE by decide⟩
    by_cases hpos : 0 < atoms <;> simp [step, Driver.call, Awaits, hpos]

/-- The two sides agree at the end of every run. -/
theorem agrees_run {ms : List Move} (h : Along (step adc) Prompt (boot adc) ms) :
    Agrees adc (ms.foldl (step adc) (boot adc)) :=
  h.keeps boot_agrees fun _ _ hs hm => agrees_step hs hm

/-! ## How many exchanges a transfer takes -/

/-- The exchanges that are left once the firmware is ready. -/
def Stage.left : Stage → ℕ
  | .start => 19
  | .test => 18
  | .first => 17
  | .data j => 17 - j
  | .last => 1
  | .deliver | .returned => 0

/-- The exchange of this move tells the driver that the conversion is still in progress. -/
def NotReady (s : System) (m : Move) : Prop :=
  m = .exchange ∧ s.driver.stage = .test ∧ s.firmware.txbuf.setWidth 32 = convInProgress

instance (m : Move) : Decidable (NotReady s m) := by
  unfold NotReady
  infer_instance

/-- How many replies of a run tell the driver that the conversion is still in progress. -/
def notReady (adc : Conversions) : System → List Move → ℕ
  | _, [] => 0
  | s, m :: ms => (if NotReady s m then 1 else 0) + notReady adc (step adc s m) ms

/-- An exchange that finds the firmware ready leaves one exchange less. -/
theorem Agrees.left_exchange (h : Agrees adc s) (hm : Prompt s .exchange) :
    (step adc s .exchange).driver.stage.left + 1 =
      s.driver.stage.left + if NotReady s .exchange then 1 else 0 := by
  obtain ⟨hsome, hprompt⟩ := hm
  obtain ⟨tx, htx⟩ := Option.isSome_iff_exists.1 hsome
  have hawaits := h.awaits
  obtain ⟨⟨stage, atoms, i, ret, seq, buf, copied⟩, fw⟩ := s
  simp only [step, htx, System.exchange]
  cases stage with simp only [Driver.tx, Option.some.injEq, reduceCtorEq] at htx
  | start => simp [Driver.receive, Stage.left, NotReady]
  | test =>
    by_cases hwait : fw.txbuf.setWidth 32 = convInProgress <;>
      simp [Driver.receive, Stage.left, NotReady, hwait]
  | first =>
    have hreply : fw.txbuf = 0xa6 := hawaits.1
    simp [Driver.receive, Stage.left, NotReady, hreply, convTest]
  | data j =>
    obtain ⟨k, hkj, hj, -⟩ := hawaits
    by_cases hmore : j + 1 < protoEnd
    · simp only [protoEnd] at hmore
      simp [Driver.receive, Stage.left, NotReady, protoEnd, hmore]
      omega
    · have hlast : j = 15 := by simp only [protoEnd] at hmore; omega
      simp [Driver.receive, Stage.left, NotReady, protoEnd, hlast]
  | last => simp [Driver.receive, Stage.left, NotReady]

/-- In the course of a transfer, the exchanges made and those left add up to those at its start and
one more for each reply that tells the driver to go on testing. -/
theorem Agrees.left_run {ms : List Move} (h : Agrees adc s) (hrun : Along (step adc) Prompt s ms)
    (hms : ∀ m ∈ ms, m = .exchange ∨ m = .main) :
    (ms.foldl (step adc) s).driver.stage.left + ms.count .exchange =
      s.driver.stage.left + notReady adc s ms := by
  induction ms generalizing s with
  | nil => simp [notReady]
  | cons m ms ih =>
    obtain ⟨hm, hrest⟩ := hrun
    have hturn := ih (agrees_step h hm) hrest fun m' hm' => hms m' (List.mem_cons_of_mem m hm')
    rw [List.foldl_cons, notReady]
    rcases hms m List.mem_cons_self with rfl | rfl
    · have hleft := h.left_exchange hm
      rw [List.count_cons_self]
      omega
    · have hleft : (step adc s .main).driver.stage = s.driver.stage := rfl
      rw [hleft] at hturn
      rw [List.count_cons_of_ne (by decide), if_neg (by simp [NotReady])]
      omega

/-- A transfer goes on until it delivers. -/
theorem Agrees.goes_on {ms : List Move} (h : Agrees adc s) (hrun : Along (step adc) Prompt s ms)
    (hms : ∀ m ∈ ms, m = .exchange ∨ m = .main) (hstage : s.driver.stage ≠ .returned) :
    (ms.foldl (step adc) s).driver.stage ≠ .returned := by
  induction ms generalizing s with
  | nil => exact hstage
  | cons m ms ih =>
    obtain ⟨hm, hrest⟩ := hrun
    refine ih (agrees_step h hm) hrest (fun m' hm' => hms m' (List.mem_cons_of_mem m hm')) ?_
    rcases hms m List.mem_cons_self with rfl | rfl
    · obtain ⟨tx, htx⟩ := Option.isSome_iff_exists.1 hm.1
      simp only [step, htx]
      exact h.awaits.receive_stage hstage
    · exact hstage

/-- A transfer has no exchange left when it delivers or has returned. -/
theorem Agrees.left_eq_zero (h : Agrees adc s) (hleft : s.driver.stage.left = 0) :
    s.driver.stage = .deliver ∨ s.driver.stage = .returned := by
  have hawaits := h.awaits
  unfold Awaits at hawaits
  cases hstage : s.driver.stage with simp_all [Stage.left]
  | data j =>
    obtain ⟨k, hkj, hj, -⟩ := hawaits
    omega

/-! ## What a transfer reads -/

/-- **A transfer reads the sixteen bytes of one conversion.** In every run in which the firmware is
prompt, the bytes which the driver is about to transform are `byte_data` in order, and all of them
belong to the conversion that was started last. No transfer is refused, and each one comes that far:
whatever the number of the replies that tell it to go on testing, nineteen exchanges more are
enough. -/
theorem mspTransfer_bytes (adc : Conversions) (ms : List Move)
    (h : Along (step adc) Prompt (boot adc) ms) :
    let s := ms.foldl (step adc) (boot adc)
    (s.driver.stage = .deliver → ∀ k : Fin 16,
      s.driver.buf k = (s.firmware.byteData k).setWidth 32 ∧
        s.firmware.byteData k = bytes (adc s.firmware.conversion) k) ∧
      s.driver.ret ≠ -EBADE ∧
      ∀ ms', s.driver.stage = .start → Along (step adc) Prompt s ms' →
        (∀ m ∈ ms', m = .exchange ∨ m = .main) → ms'.count .exchange = notReady adc s ms' + 19 →
        (ms'.foldl (step adc) s).driver.stage = .deliver := by
  intro s
  have hs : Agrees adc s := agrees_run h
  refine ⟨fun hstage k => ?_, hs.not_refused, fun ms' hstage hrun hms hcount => ?_⟩
  · have hstored := hs.awaits
    simp only [Awaits, hstage] at hstored
    refine ⟨hstored.buf k k.2, ?_⟩
    rw [Firmware.byteData, hs.sound.shortData_eq hstored.settled]
  · have hleft := hs.left_run hrun hms
    rw [hstage, hcount] at hleft
    have hend : Agrees adc (ms'.foldl (step adc) s) :=
      hrun.keeps hs fun _ _ hs hm => agrees_step hs hm
    have hdone : (ms'.foldl (step adc) s).driver.stage.left = 0 := by
      have hstart : Stage.start.left = 19 := rfl
      omega
    exact (hend.left_eq_zero hdone).resolve_right (hs.goes_on hrun hms (by simp [hstage]))

/-- A transfer with two replies that tell the driver to go on testing, one before and one after the
firmware has converted. -/
def oneTransfer : List Move :=
  [.exchange, .main, .exchange] ++ List.replicate 11 .main ++ List.replicate 19 .exchange

/-- Results that tell the conversion and the channel they belong to. -/
def numbered : Conversions := fun n c => BitVec.ofNat 16 (256 * n + c)

theorem mspTransfer_bytes_oneTransfer :
    (oneTransfer.foldl (step numbered) (step numbered (boot numbered) (.call 1))).driver.buf 15 =
      (bytes (numbered 2) 15).setWidth 32 := by
  have hcall := (mspTransfer_bytes numbered [.call 1] (by decide +kernel)).2.2 oneTransfer
  have hbytes := mspTransfer_bytes numbered (.call 1 :: oneTransfer) (by decide +kernel)
  simp only [List.foldl_cons, List.foldl_nil] at hcall hbytes
  have hstage := hcall (by decide +kernel) (by decide +kernel) (by decide +kernel)
    (by decide +kernel)
  have hconversion : (oneTransfer.foldl (step numbered)
      (step numbered (boot numbered) (.call 1))).firmware.conversion = 2 := by
    decide +kernel
  have hlast := hbytes.1 hstage 15
  rw [hlast.2, hconversion] at hlast
  exact hlast.1

/-- What the user receives for each atom is computed from the bytes of one conversion. -/
theorem mspTransfer_copied {ms : List Move} (h : Along (step adc) Prompt (boot adc) ms) :
    ∀ atom ∈ (ms.foldl (step adc) (boot adc)).driver.copied,
      ∃ n, atom = mspTransform fun k => (bytes (adc n) k).setWidth 32 := by
  let I (s : System) : Prop := Agrees adc s ∧
    ∀ atom ∈ s.driver.copied, ∃ n, atom = mspTransform fun k => (bytes (adc n) k).setWidth 32
  have hboot : I (boot adc) := ⟨boot_agrees, fun atom hatom => absurd hatom (by simp [boot])⟩
  refine (h.keeps hboot fun s m hs hm => ⟨agrees_step hs.1 hm, ?_⟩).2
  cases m with
  | exchange =>
    obtain ⟨tx, htx⟩ := Option.isSome_iff_exists.1 hm.1
    simp only [step, htx, System.exchange, Driver.receive_copied]
    exact hs.2
  | main => exact hs.2
  | deliver failed =>
    cases failed with
    | true => exact hs.2
    | false =>
      intro atom hatom
      simp only [step, Driver.deliver, Bool.false_eq_true, ↓reduceIte, List.mem_append,
        List.mem_singleton] at hatom
      rcases hatom with hatom | rfl
      · exact hs.2 atom hatom
      · have hstored := hs.1.awaits
        simp only [Awaits, show s.driver.stage = .deliver from hm] at hstored
        refine ⟨s.firmware.conversion, congrArg mspTransform ?_⟩
        ext1 k
        rw [hstored.buf k k.2, Firmware.byteData, hs.1.sound.shortData_eq hstored.settled]
  | call atoms => exact fun atom hatom => absurd hatom (by simp [step, Driver.call])

end LiberaDaq.Msp
