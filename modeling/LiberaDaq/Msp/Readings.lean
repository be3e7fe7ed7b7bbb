import LiberaDaq.Msp.Device

/-!
# Readings of the supply voltages in company

A semaphore that is free owns a monitor at rest: it has the data of the last conversion that was
called for and leaves them alone. Who takes the semaphore has the monitor, the receive buffer and the
atom to itself, but for the steps of the main loop, and gives them back as they were found. So each
reading is made of the bytes of one conversion, and commands tell which one it is (`voltages_shared`).
-/

namespace LiberaDaq.Msp

open Interaction
open Cspi (Word cspiOk cspiESystem)
open Kernel (eInval eRestartSys)

/-- The end of `msp_transfer` for an atom, when its bytes were received. -/
def finishReading (turns atoms : ℕ) (ret : ℤ) (got : List Voltages) :
    MspProg (ℤ × List Voltages) := do
  mspCall .transform
  let (copied, atom) ← mspCall .copyToUser
  if copied then mspTransfer turns atoms (ret + sizeofAtom) (got ++ [atom])
  else pure (-EFAULT, got ++ [atom])

open Prog

variable {ι α : Type} {adc : Conversions} {fw : Firmware} {n : ℕ}

/-! ## The monitor on its way to rest -/

/-- The monitor comes to rest with the `n`-th conversion. -/
def Heading (adc : Conversions) (n : ℕ) (fw : Firmware) : Prop :=
  fw.Sound adc ∧
    match fw.main with
    | .woken | .convert => fw.conversion + 1 = n
    | _ => fw.conversion = n

/-- The monitor is at rest, with the data of the `n`-th conversion. -/
def Ready (adc : Conversions) (n : ℕ) (fw : Firmware) : Prop := Heading adc n fw ∧ fw.Settled

theorem heading_main (h : Heading adc n fw) : Heading adc n (mainStep adc fw) := by
  refine ⟨mainStep_sound h.1, ?_⟩
  obtain ⟨main, noData, shortData, txbuf, conversion⟩ := fw
  obtain ⟨-, hn⟩ := h
  cases main with
  | store c =>
    by_cases hlast : c.1 + 1 < 8 <;> simpa [mainStep, hlast] using hn
  | _ => exact hn

theorem ready_main (h : Ready adc n fw) : Ready adc n (mainStep adc fw) :=
  ⟨heading_main h.1, (h.2.mainStep adc).1⟩

theorem Ready.conversion (h : Ready adc n fw) : fw.conversion = n := by
  obtain ⟨main, noData, shortData, txbuf, conversion⟩ := fw
  obtain ⟨⟨-, hn⟩, -, hmain | hmain⟩ := h <;> simp only at hmain <;> subst hmain <;> exact hn

theorem Ready.byteData (h : Ready adc n fw) : fw.byteData = bytes (adc n) := by
  rw [Firmware.byteData, h.1.1.shortData_eq h.2, h.conversion]

/-- A monitor at rest is woken by the command if it sleeps. -/
theorem Ready.start (h : Ready adc n fw) :
    Heading adc (n + if fw.main = .asleep then 1 else 0) (rxIsr 0x10 fw) := by
  refine ⟨rxIsr_sound h.1.1, ?_⟩
  obtain ⟨main, noData, shortData, txbuf, conversion⟩ := fw
  obtain ⟨⟨-, hn⟩, hdata, hmain | hmain⟩ := h <;> simp only at hdata hmain <;>
    subst hdata hmain <;> simpa [rxIsr, Main.wake] using hn

/-- The reply to a test, and to what follows it. -/
def Replies (fw : Firmware) : Prop := fw.txbuf = 0xef ∨ fw.txbuf = 0xa6 ∧ fw.Settled

theorem replies_main (h : Replies fw) : Replies (mainStep adc fw) := by
  refine h.imp (fun h => ?_) fun h => ⟨?_, (h.2.mainStep adc).1⟩
  · rw [mainStep_txbuf, h]
  · rw [mainStep_txbuf, h.1]

/-- A test is answered by `0xa6` once the monitor is at rest. -/
theorem Heading.test (h : Heading adc n fw) (hmain : fw.main ≠ .woken) :
    Heading adc n (rxIsr 0xa5 fw) ∧ Replies (rxIsr 0xa5 fw) := by
  cases hdata : fw.noData with
  | true =>
    rw [rxIsr_noData hdata]
    exact ⟨h, .inl rfl⟩
  | false =>
    rw [rxIsr_test hdata]
    exact ⟨h, .inr ⟨rfl, h.1.settled hdata hmain⟩⟩

/-! ## Company -/

/-- The monitor behaves, and is at rest while the semaphore is free. -/
structure MspSound (adc : Conversions) (u : MspWorld ι) : Prop where
  sound : u.firmware.Sound adc
  rests : u.holder = none → Ready adc (conversions u.starts) u.firmware

/-- The other threads keep the monitor sound, send commands in their own name, and change nothing while
a thread holds the semaphore but by steps of the main loop. -/
structure MspRely (adc : Conversions) (i : ι) (u v : MspWorld ι) : Prop where
  sound : MspSound adc u → MspSound adc v
  grows : ∃ l, v.starts = u.starts ++ l ∧ ∀ s ∈ l, s.1 ≠ i
  held : u.holder = some i → ∃ k, v = (MspWorld.main adc)^[k] u

/-- What a thread does keeps the monitor sound, and is what the others rely on. -/
def MspGuar (adc : Conversions) (i : ι) (u v : MspWorld ι) : Prop :=
  (MspSound adc u → MspSound adc v) ∧ ∀ j, j ≠ i → MspRely adc j u v

variable {i : ι} {u v w : MspWorld ι} {s before own : List (ι × Bool)}

theorem holder_main {k : ℕ} : ((MspWorld.main adc)^[k] u).holder = u.holder := by
  induction k generalizing u with
  | zero => rfl
  | succ k ih => rw [Function.iterate_succ_apply, ih, MspWorld.main]

instance : IsPreorder (MspWorld ι) (MspRely adc i) where
  refl _ := ⟨id, ⟨[], (List.append_nil _).symm, by simp⟩, fun _ => ⟨0, rfl⟩⟩
  trans u v w h h' := by
    obtain ⟨l, hl, hi⟩ := h.grows
    obtain ⟨l', hl', hi'⟩ := h'.grows
    refine ⟨h'.sound ∘ h.sound, ⟨l ++ l', ?_, List.forall_mem_append.2 ⟨hi, hi'⟩⟩, fun hu => ?_⟩
    · rw [hl', hl, List.append_assoc]
    · obtain ⟨k, rfl⟩ := h.held hu
      obtain ⟨k', rfl⟩ := h'.held (holder_main.trans hu)
      exact ⟨k' + k, (Function.iterate_add_apply _ _ _ _).symm⟩

/-- A program of a thread amid the others. -/
abbrev MspAmid (adc : Conversions) (i : ι) (p : MspProg α) (Q : α → MspWorld ι → Prop)
    (u : MspWorld ι) : Prop := p.amid (MspRely adc i) (MspGuar adc i) (mspServe adc i) Q u

/-- What is said of the world while a thread holds the semaphore is stable if the main loop keeps
it. -/
theorem stable_of_main {I : MspWorld ι → Prop} (hheld : ∀ u, I u → u.holder = some i)
    (hmain : ∀ u, I u → I (u.main adc)) : Stable (MspRely adc i) I := by
  intro u v h hu
  obtain ⟨k, rfl⟩ := h.held (hheld u hu)
  exact Function.Iterate.rec I hu hmain k

theorem guar_refl : MspGuar adc i u u := ⟨id, fun j _ => refl_of (MspRely adc j) u⟩

/-- The semaphore is taken. -/
theorem guar_take (h : u.holder = none) : MspGuar adc i u { u with holder := some i } := by
  refine ⟨fun hu => ⟨hu.sound, nofun⟩, fun j _ => ⟨fun hu => ⟨hu.sound, nofun⟩, ?_, by simp [h]⟩⟩
  exact ⟨[], (List.append_nil _).symm, by simp⟩

/-- Who holds the semaphore does something inside. -/
theorem guar_inside (hu : u.holder = some i) (hv : v.holder = some i)
    (hsound : u.firmware.Sound adc → v.firmware.Sound adc) {l : List (ι × Bool)}
    (hl : v.starts = u.starts ++ l) (hmine : ∀ s ∈ l, s.1 = i) : MspGuar adc i u v := by
  have hkeeps : MspSound adc u → MspSound adc v := fun h => ⟨hsound h.sound, by simp [hv]⟩
  refine ⟨hkeeps, fun j hj => ⟨hkeeps, ⟨l, hl, fun s hs => ?_⟩, fun hheld => ?_⟩⟩
  · rw [hmine s hs]
    exact hj.symm
  · exact absurd (Option.some.inj (hheld.symm.trans hu)) hj

/-- The semaphore is given back, with the monitor at rest. -/
theorem guar_up (h : u.holder = some i) (hready : Ready adc (conversions u.starts) u.firmware) :
    MspGuar adc i u { u with holder := none } := by
  have hkeeps : MspSound adc u → MspSound adc { u with holder := none } :=
    fun hu => ⟨hu.sound, fun _ => hready⟩
  refine ⟨hkeeps, fun j hj => ⟨hkeeps, ⟨[], (List.append_nil _).symm, by simp⟩, fun hheld => ?_⟩⟩
  exact absurd (Option.some.inj (hheld.symm.trans h)) hj

/-- The main loop makes a step. -/
theorem guar_main : MspGuar adc i u (u.main adc) := by
  have hkeeps : MspSound adc u → MspSound adc (u.main adc) :=
    fun hu => ⟨mainStep_sound hu.sound, fun hfree => ready_main (hu.rests hfree)⟩
  exact ⟨hkeeps, fun _ _ => ⟨hkeeps, ⟨[], (List.append_nil _).symm, by simp⟩, fun _ => ⟨1, rfl⟩⟩⟩

/-! ## Inside -/

/-- A thread holds the semaphore, commands have been sent, and the monitor comes to rest with what they
call for. -/
structure Inside (adc : Conversions) (i : ι) (s : List (ι × Bool)) (u : MspWorld ι) : Prop where
  holder : u.holder = some i
  starts : u.starts = s
  heading : Heading adc (conversions s) u.firmware

/-- The monitor has come to rest. -/
structure AtRest (adc : Conversions) (i : ι) (s : List (ι × Bool)) (u : MspWorld ι) : Prop
    extends Inside adc i s u where
  settled : u.firmware.Settled

/-- The first `k` bytes are in the receive buffer, and the byte `r` waits to be sent. -/
structure Receiving (adc : Conversions) (i : ι) (s : List (ι × Bool)) (k : ℕ) (r : Fin 16)
    (u : MspWorld ι) : Prop extends AtRest adc i s u where
  seq : u.seq = k
  buf : ∀ m : Fin 16, m.1 < k → u.buf m = (bytes (adc (conversions s)) m).setWidth 32
  reply : u.firmware.txbuf = bytes (adc (conversions s)) r

theorem Inside.main (h : Inside adc i s u) : Inside adc i s (u.main adc) :=
  ⟨h.holder, h.starts, heading_main h.heading⟩

theorem AtRest.ready (h : AtRest adc i s u) : Ready adc (conversions s) u.firmware :=
  ⟨h.heading, h.settled⟩

theorem AtRest.main (h : AtRest adc i s u) : AtRest adc i s (u.main adc) :=
  ⟨h.toInside.main, (ready_main h.ready).2⟩

theorem Receiving.main {k : ℕ} {r : Fin 16} (h : Receiving adc i s k r u) :
    Receiving adc i s k r (u.main adc) :=
  ⟨h.toAtRest.main, h.seq, h.buf, mainStep_txbuf.trans h.reply⟩

theorem atRest_stable : Stable (MspRely adc i) (AtRest adc i s) :=
  stable_of_main (fun _ h => h.holder) fun _ h => h.main

/-- Who is inside makes a call. -/
theorem amid_inside {c : MspCall} {f : MspAns c → MspProg α} {Q : α → MspWorld ι → Prop}
    {I : MspWorld ι → Prop} (hI : Stable (MspRely adc i) I) (hu : I u)
    (h : ∀ x v w, I v → mspServe adc i c x v w →
      MspGuar adc i v w ∧ MspAmid adc i (f x) Q w) :
    MspAmid adc i (mspCall c >>= f) Q u :=
  fun v x w hv hx => h x v w (hI u v hv hu) hx

/-- An exchange that is no command to start a conversion. -/
theorem guar_exchanged {tx : Word} (hu : u.holder = some i) (htx : tx ≠ convStart) :
    MspGuar adc i u (u.exchanged i tx) :=
  guar_inside hu hu rxIsr_sound (l := []) (by simp [MspWorld.exchanged, htx]) (by simp)

@[simp] theorem conversions_concat {e : ι × Bool} :
    conversions (s ++ [e]) = conversions s + if e.2 then 1 else 0 := by
  rw [conversions, conversions, List.countP_append, List.countP_singleton, Nat.add_assoc]

/-- The command to start a conversion. -/
theorem amid_start {f : Word → MspProg α} {Q : α → MspWorld ι → Prop} (hu : AtRest adc i s u)
    (h : ∀ rx e v, e.1 = i → Inside adc i (s ++ [e]) v → Replies v.firmware →
      MspAmid adc i (f rx) Q v) :
    MspAmid adc i (mspCall (.exchange convStart) >>= f) Q u := by
  apply amid_inside atRest_stable hu
  rintro rx v w hv ⟨-, -, rfl⟩
  let e : ι × Bool := (i, decide (v.firmware.main = .asleep))
  have hstarts : (v.exchanged i convStart).starts = v.starts ++ [e] := by
    simp [MspWorld.exchanged, e]
  refine ⟨guar_inside hv.holder hv.holder rxIsr_sound hstarts (by simp [e]), ?_⟩
  refine h rx e _ rfl ⟨hv.holder, ?_, ?_⟩ (.inl rxIsr_start)
  · rw [hstarts, hv.starts]
  · have hstart := hv.ready.start
    have hfirmware : (v.exchanged i convStart).firmware = rxIsr 0x10 v.firmware := rfl
    rw [hfirmware]
    simpa [e] using hstart

/-- **The tests.** They end when the monitor is at rest. -/
theorem amid_awaitConversion {turns : ℕ} (hu : Inside adc i s u) (hreply : Replies u.firmware) :
    MspAmid adc i (awaitConversion turns)
      (fun _ v => AtRest adc i s v ∧ v.firmware.txbuf = 0xa6) u := by
  have hinside : Stable (MspRely adc i) fun u => Inside adc i s u ∧ Replies u.firmware :=
    stable_of_main (fun _ h => h.1.holder) fun _ h => ⟨h.1.main, replies_main h.2⟩
  have hrests : Stable (MspRely adc i) fun u => AtRest adc i s u ∧ u.firmware.txbuf = 0xa6 :=
    stable_of_main (fun _ h => h.1.holder) fun _ h => ⟨h.1.main, mainStep_txbuf.trans h.2⟩
  induction turns generalizing u with
  | zero => exact fun _ _ _ _ hx => hx.elim
  | succ n ih =>
    apply amid_inside hinside ⟨hu, hreply⟩
    rintro rx v w ⟨hv, hreply⟩ ⟨hmain, rfl, rfl⟩
    obtain ⟨hheading, hnext⟩ := hv.heading.test hmain
    have hw : Inside adc i s (v.exchanged i convTest) :=
      ⟨hv.holder, by simp [MspWorld.exchanged, convTest, convStart, hv.starts], hheading⟩
    refine ⟨guar_exchanged hv.holder (by decide), ?_⟩
    rcases hreply with hreply | ⟨hreply, hsettled⟩
    · rw [hreply]
      exact ih hw hnext
    · rw [hreply]
      have hfirmware : (v.exchanged i convTest).firmware = { v.firmware with txbuf := 0xa6 } :=
        rxIsr_test hsettled.1
      have hrest : AtRest adc i s (v.exchanged i convTest) := ⟨hw, hfirmware ▸ hsettled⟩
      exact fun z hz => hrests _ z hz ⟨hrest, by rw [hfirmware]⟩

/-! ## A reading -/

theorem receiving_stable {k : ℕ} {r : Fin 16} :
    Stable (MspRely adc i) (Receiving adc i s k r) :=
  stable_of_main (fun _ h => h.holder) fun _ h => h.main

theorem index_ne_start : ∀ r : Fin 16, BitVec.ofNat 32 r ≠ convStart := by decide

/-- An exchange with an index, of a monitor at rest. -/
theorem AtRest.exchanged (h : AtRest adc i s u) (r : Fin 16) :
    AtRest adc i s (u.exchanged i (BitVec.ofNat 32 r)) ∧
      (u.exchanged i (BitVec.ofNat 32 r)).firmware.txbuf = bytes (adc (conversions s)) r := by
  have hfirmware : (u.exchanged i (BitVec.ofNat 32 r)).firmware =
      { u.firmware with txbuf := bytes (adc (conversions s)) r } := by
    rw [← h.ready.byteData]
    exact rxIsr_tx h.settled.1 r
  refine ⟨⟨⟨h.holder, ?_, hfirmware ▸ h.heading⟩, hfirmware ▸ h.settled⟩, by rw [hfirmware]⟩
  simp [MspWorld.exchanged, index_ne_start, h.starts]

/-- A byte is received, and the next one asked for. -/
theorem amid_byte {f : Unit → MspProg α} {Q : α → MspWorld ι → Prop} {k r : Fin 16}
    (hu : Receiving adc i s k k u)
    (h : ∀ v, Receiving adc i s (k + 1) r v → MspAmid adc i (f ()) Q v) :
    MspAmid adc i (mspCall (.exchange (BitVec.ofNat 32 r)) >>= fun rx =>
      mspCall (.store rx) >>= f) Q u := by
  apply amid_inside receiving_stable hu
  rintro rx v w hv ⟨-, rfl, rfl⟩
  obtain ⟨hrest, hreply⟩ := hv.toAtRest.exchanged r
  have hw : Receiving adc i s k r (v.exchanged i (BitVec.ofNat 32 r)) :=
    ⟨hrest, hv.seq, hv.buf, hreply⟩
  refine ⟨guar_exchanged hv.holder (index_ne_start r), amid_inside receiving_stable hw ?_⟩
  rintro _ v' w' hv' rfl
  refine ⟨guar_inside hv'.holder hv'.holder id (List.append_nil _).symm (by simp), h _ ?_⟩
  refine ⟨⟨⟨hv'.holder, hv'.starts, hv'.heading⟩, hv'.settled⟩, ?_, fun m hm => ?_, hv'.reply⟩
  · exact congrArg Nat.succ hv'.seq
  · change Function.update v'.buf v'.seq (v.firmware.txbuf.setWidth 32) m = _
    rw [hv.reply, hv'.seq]
    rcases eq_or_ne m k with rfl | hne
    · rw [Function.update_self]
    · have hlt : m.1 < k.1 := by
        have := Fin.val_ne_of_ne hne
        omega
      rw [Function.update_of_ne hlt.ne]
      exact hv'.buf m hlt

/-- The loop over the indices. -/
theorem amid_receiveData {k : Fin 16} (hk : k.1 + n = 15) (hu : Receiving adc i s k k u) :
    MspAmid adc i (receiveData n (k + 1)) (fun _ v => Receiving adc i s 15 15 v) u := by
  induction n generalizing k u with
  | zero =>
    obtain rfl : k = 15 := Fin.ext hk
    exact fun v hv => receiving_stable u v hv hu
  | succ n ih =>
    let r : Fin 16 := ⟨k.1 + 1, by omega⟩
    apply amid_byte (r := r) hu
    intro v hv
    exact ih (k := r) (by simp only [r]; omega) hv

theorem amid_finishReading {turns atoms : ℕ} {ret : ℤ} {got : List Voltages}
    {Q : ℤ × List Voltages → MspWorld ι → Prop} (hu : Receiving adc i s 16 15 u)
    (hwhole : ∀ v, AtRest adc i s v → MspAmid adc i (mspTransfer turns atoms (ret + sizeofAtom)
      (got ++ [voltagesOf adc (conversions s)])) Q v)
    (hcut : ∀ x v, AtRest adc i s v → Q (-EFAULT, x) v) :
    MspAmid adc i (finishReading turns atoms ret got) Q u := by
  have hdone : Stable (MspRely adc i) fun u =>
      AtRest adc i s u ∧ u.atom = voltagesOf adc (conversions s) :=
    stable_of_main (fun _ h => h.1.holder) fun _ h => ⟨h.1.main, h.2⟩
  apply amid_inside receiving_stable hu
  rintro _ v w hv rfl
  have hatom : (mspTransform fun k => v.buf k) = voltagesOf adc (conversions s) :=
    congrArg mspTransform (funext fun k => hv.buf k k.2)
  have hw : AtRest adc i s { v with atom := mspTransform fun k => v.buf k } :=
    ⟨⟨hv.holder, hv.starts, hv.heading⟩, hv.settled⟩
  refine ⟨guar_inside hv.holder hv.holder id (List.append_nil _).symm (by simp), ?_⟩
  apply amid_inside hdone ⟨hw, hatom⟩
  rintro ⟨copied, x⟩ v w ⟨hv, hatom⟩ ⟨hx, rfl⟩
  refine ⟨guar_refl, ?_⟩
  cases copied with
  | true =>
    obtain rfl : x = w.atom := hx rfl
    rw [hatom]
    exact hwhole w hv
  | false => exact fun z hz => hcut _ z (atRest_stable w z hz hv)

theorem readings_concat {e : ι × Bool} : readings adc before (own ++ [e]) =
    readings adc before own ++ [voltagesOf adc (conversions (before ++ own ++ [e]))] := by
  induction own generalizing before with
  | nil => simp [readings]
  | cons s own ih => simp [readings, ih]

/-- What a transfer has come to. -/
def Transferred (adc : Conversions) (i : ι) (before : List (ι × Bool)) (m : ℕ)
    (r : ℤ × List Voltages) (v : MspWorld ι) : Prop :=
  ∃ own, AtRest adc i (before ++ own) v ∧ (∀ e ∈ own, e.1 = i) ∧
    (own.length = m ∧ r = (sizeofAtom * m, readings adc before own) ∨ r.1 = -EFAULT)

/-- **The transfer**, after `own` commands. -/
theorem amid_mspTransfer {turns atoms m : ℕ} {ret : ℤ} {got : List Voltages}
    (hu : AtRest adc i (before ++ own) u) (hown : ∀ e ∈ own, e.1 = i)
    (hret : ret = sizeofAtom * own.length) (hgot : got = readings adc before own)
    (hm : own.length + atoms = m) :
    MspAmid adc i (mspTransfer turns atoms ret got) (Transferred adc i before m) u := by
  induction atoms generalizing own ret got u with
  | zero =>
    intro v hv
    refine ⟨own, atRest_stable u v hv hu, hown, .inl ⟨hm, ?_⟩⟩
    rw [hret, hgot, ← hm, Nat.add_zero]
  | succ atoms ih =>
    apply amid_start hu
    intro _ e v he hv hreply
    rw [List.append_assoc] at hv
    have hmine : ∀ e' ∈ own ++ [e], e'.1 = i :=
      List.forall_mem_append.2 ⟨hown, List.forall_mem_singleton.2 he⟩
    apply amid_seq (amid_awaitConversion hv hreply)
    rintro _ v ⟨hv, hreply⟩
    have hrests : Stable (MspRely adc i) fun u =>
        AtRest adc i (before ++ (own ++ [e])) u ∧ u.firmware.txbuf = 0xa6 :=
      stable_of_main (fun _ h => h.1.holder) fun _ h => ⟨h.1.main, mainStep_txbuf.trans h.2⟩
    have hfirst : Stable (MspRely adc i) fun u =>
        (AtRest adc i (before ++ (own ++ [e])) u ∧ u.firmware.txbuf = 0xa6) ∧ u.seq = 0 :=
      stable_of_main (fun _ h => h.1.1.holder)
        fun _ h => ⟨⟨h.1.1.main, mainStep_txbuf.trans h.1.2⟩, h.2⟩
    apply amid_inside hrests ⟨hv, hreply⟩
    rintro _ v w ⟨hv, hreply⟩ rfl
    have hw : AtRest adc i (before ++ (own ++ [e])) { v with seq := 0 } :=
      ⟨⟨hv.holder, hv.starts, hv.heading⟩, hv.settled⟩
    refine ⟨guar_inside hv.holder hv.holder id (List.append_nil _).symm (by simp), ?_⟩
    apply amid_inside hfirst ⟨⟨hw, hreply⟩, rfl⟩
    rintro seq v w ⟨⟨hv, hreply⟩, hseq⟩ ⟨rfl, rfl⟩
    refine ⟨guar_refl, ?_⟩
    rw [hseq]
    apply amid_inside hfirst ⟨⟨hv, hreply⟩, hseq⟩
    rintro rx v w ⟨⟨hv, hreply⟩, hseq⟩ ⟨-, rfl, rfl⟩
    refine ⟨guar_exchanged hv.holder (by decide), ?_⟩
    obtain ⟨hrest, hnext⟩ := hv.exchanged 0
    have hanswer : ¬v.firmware.txbuf.setWidth 32 ≠ convTest + 1 := by
      rw [hreply]
      decide
    rw [if_neg hanswer]
    have hzero : Receiving adc i (before ++ (own ++ [e])) 0 0 (v.exchanged i 0) :=
      ⟨hrest, hseq, fun m hm => absurd hm (Nat.not_lt_zero _), hnext⟩
    apply amid_seq (amid_receiveData (k := 0) rfl hzero)
    intro _ v hv
    apply amid_byte (k := 15) (r := 15) hv
    intro v hv
    change MspAmid adc i (finishReading turns atoms ret got) _ v
    refine amid_finishReading hv ?_ ?_
    · intro v hv
      refine ih hv hmine ?_ ?_ ?_
      · rw [hret, List.length_append, List.length_singleton, Nat.cast_add, mul_add, Nat.cast_one,
          mul_one]
      · rw [hgot, readings_concat, List.append_assoc]
      · rw [← hm, List.length_append, List.length_singleton]
        omega
    · exact fun x v hv => ⟨own ++ [e], hv, hmine, .inr rfl⟩

/-! ## The operations -/

/-- What others have sent since does not matter. -/
theorem Sends.later (h : Sends i u v before own) (hw : MspRely adc i v w) :
    Sends i u w before own := by
  obtain ⟨after, hafter, hi⟩ := h.sent
  obtain ⟨l, hl, hi'⟩ := hw.grows
  refine ⟨⟨after ++ l, ?_, List.forall_mem_append.2 ⟨hi, hi'⟩⟩, h.others, h.mine⟩
  rw [hl, hafter, List.append_assoc]

theorem sends_nil : Sends i u u u.starts [] :=
  ⟨⟨[], by simp, by simp⟩, ⟨[], by simp, by simp⟩, by simp⟩

/-- The monitor is sound, and a thread has sent some commands since. -/
def Sent (adc : Conversions) (i : ι) (u : MspWorld ι) (before own : List (ι × Bool))
    (v : MspWorld ι) : Prop := MspSound adc v ∧ Sends i u v before own

theorem sent_stable : Stable (MspRely adc i) (Sent adc i u before own) :=
  fun _ _ h hv => ⟨h.sound hv.1, hv.2.later h⟩

/-- The semaphore is taken when it is free, and with it the monitor at rest. -/
theorem take_rests (h : Sent adc i u before own v) (hfree : v.holder = none) :
    AtRest adc i v.starts { v with holder := some i } :=
  ⟨⟨rfl, rfl, (h.1.rests hfree).1⟩, (h.1.rests hfree).2⟩

/-- The semaphore is given back. -/
theorem amid_up {f : Unit → MspProg α} {Q : α → MspWorld ι → Prop} {I : MspWorld ι → Prop}
    (hI : Stable (MspRely adc i) I) (hu : I u) (hrest : ∀ v, I v → AtRest adc i v.starts v)
    (h : ∀ v, I v → MspSound adc { v with holder := none } →
      MspAmid adc i (f ()) Q { v with holder := none }) :
    MspAmid adc i (mspCall .up >>= f) Q u := by
  apply amid_inside hI hu
  rintro _ v w hv rfl
  have hready := (hrest v hv).ready
  exact ⟨guar_up (hrest v hv).holder hready, h v hv ⟨hready.1.1, fun _ => hready⟩⟩

/-- `msp_open` and `msp_release` wait for who is inside. -/
theorem amid_pass {f : Unit → MspProg α} {Q : α → MspWorld ι → Prop}
    (hv : Sent adc i u before own v)
    (h : ∀ w, Sent adc i u before own w → MspAmid adc i (f ()) Q w) :
    MspAmid adc i (mspCall .down >>= fun _ => mspCall .up >>= f) Q v := by
  apply amid_inside sent_stable hv
  rintro _ v w hv ⟨hfree, rfl⟩
  refine ⟨guar_take hfree, ?_⟩
  have hinside : Stable (MspRely adc i) (AtRest adc i v.starts) := atRest_stable
  apply amid_up hinside (take_rests hv hfree) (fun w hw => hw.starts.symm ▸ hw)
  intro w hw hsound
  refine h _ ⟨hsound, ?_, hv.2.others, hv.2.mine⟩
  obtain ⟨after, hafter, hi⟩ := hv.2.sent
  exact ⟨after, hw.starts.trans hafter, hi⟩

/-- A read has come to an outcome and still has the semaphore. -/
def Locked (adc : Conversions) (i : ι) (count : ℕ) (before : List (ι × Bool))
    (r : ℤ × List Voltages) (v : MspWorld ι) : Prop :=
  ∃ own, AtRest adc i (before ++ own) v ∧ (∀ s ∈ own, s.1 = i) ∧ Outcome adc count before own r

theorem locked_stable {count : ℕ} {r : ℤ × List Voltages} :
    Stable (MspRely adc i) (Locked adc i count before r) := by
  rintro v w h ⟨own, hv, hmine, hr⟩
  exact ⟨own, atRest_stable v w h hv, hmine, hr⟩

theorem amid_mspReadLocked {turns count : ℕ} (hu : AtRest adc i s u) :
    MspAmid adc i (mspReadLocked turns count) (Locked adc i count s) u := by
  have hrest : AtRest adc i (s ++ []) u := by rwa [List.append_nil]
  have hrefused (h : ¬(count = 0 ∨ count = 32)) : Locked adc i count s (-eInval, []) u :=
    ⟨[], hrest, by simp, .inl ⟨.inr ⟨rfl, h⟩, rfl, rfl⟩⟩
  unfold mspReadLocked
  split
  · next hmax =>
    have hbig : 32 < count := hmax
    exact fun v hv => locked_stable u v hv (hrefused (by omega))
  split
  · next hdvd => exact fun v hv => locked_stable u v hv (hrefused (by omega))
  · next hdvd =>
    have hcount : 32 * (count / 32) = count := by omega
    split
    · next hzero =>
      have hnone : count = 0 := by omega
      subst hnone
      exact fun v hv => locked_stable u v hv ⟨[], hrest, by simp, .inr (.inl ⟨rfl, rfl, rfl⟩)⟩
    · apply amid_mono (amid_mspTransfer (m := count / 32) hrest (by simp) rfl rfl (Nat.zero_add _))
      rintro r w ⟨own, hw, hmine, hr⟩
      refine ⟨own, hw, hmine, .inr (hr.imp_left ?_)⟩
      rintro ⟨hlen, rfl⟩
      refine ⟨?_, by rw [hlen], rfl⟩
      change (32 : ℤ) * (count / 32 : ℕ) = count
      omega

/-- **What a read does.** -/
theorem amid_mspRead {turns count : ℕ} (hv : Sent adc i u u.starts [] v) :
    MspAmid adc i (mspRead turns count)
      (fun r w => ∃ before own, Sent adc i u before own w ∧ Outcome adc count before own r) v := by
  apply amid_inside sent_stable hv
  rintro taken v w hv hw
  cases taken with
  | false =>
    obtain rfl : w = v := hw
    refine ⟨guar_refl, fun z hz => ?_⟩
    exact ⟨u.starts, [], sent_stable w z hz hv, .inl ⟨.inl rfl, rfl, rfl⟩⟩
  | true =>
    obtain ⟨hfree, rfl⟩ : v.holder = none ∧ w = { v with holder := some i } := hw
    have hothers : ∃ l, v.starts = u.starts ++ l ∧ ∀ s ∈ l, s.1 ≠ i := by simpa using hv.2.sent
    refine ⟨guar_take hfree, amid_seq (amid_mspReadLocked (take_rests hv hfree)) ?_⟩
    intro r w hw
    apply amid_up locked_stable hw
    · rintro w ⟨own, hw, -⟩
      exact hw.starts.symm ▸ hw
    · rintro w ⟨own, hw, hmine, hr⟩ hsound z hz
      have hstarts : w.starts = v.starts ++ own ++ [] := by rw [List.append_nil, hw.starts]
      have hsent : Sent adc i u v.starts own { w with holder := none } :=
        ⟨hsound, ⟨[], hstarts, by simp⟩, hothers, hmine⟩
      exact ⟨v.starts, own, sent_stable _ z hz hsent, hr⟩

/-- A read of one atom. -/
theorem Outcome.voltages {stack : Voltages} {r : ℤ × List Voltages}
    (h : Outcome adc 32 before own r) (hs : Sends i u v before own) :
    VoltagesLaw adc i u v stack r.1 (r.2.getLast?.getD stack) := by
  rcases h with ⟨hret, -, hgot⟩ | ⟨hret, hlen, hgot⟩ | hret
  · refine .inr (.inl ⟨hret.resolve_right fun h => h.2 (.inr rfl), ?_⟩)
    rw [hgot]
    rfl
  · have hone : own.length = 1 := by
      rw [hret] at hlen
      change ((32 : ℕ) : ℤ) = 32 * own.length at hlen
      omega
    obtain ⟨e, rfl⟩ := List.length_eq_one_iff.1 hone
    refine .inl ⟨before, e, hs, hret, ?_⟩
    rw [hgot]
    rfl
  · exact .inr (.inr hret)

/-- **What the library does.** -/
theorem amid_cspiHealthGetVoltages {turns : ℕ} {stack : Voltages} (hu : MspSound adc u) :
    MspAmid adc i (cspiHealthGetVoltages turns stack)
      (fun r w => MspSound adc w ∧ (r.1 = cspiOk ↔ r.2.isSome) ∧
        ∀ x ∈ r.2, VoltagesLaw adc i u w stack x.1 x.2) u := by
  have hfails : cspiESystem ≠ cspiOk := by decide
  have hstart : Sent adc i u u.starts [] u := ⟨hu, sends_nil⟩
  apply amid_inside sent_stable hstart
  rintro opened v w hv hw
  obtain rfl : w = v := hw
  refine ⟨guar_refl, ?_⟩
  cases opened with
  | false =>
    intro z hz
    exact ⟨(sent_stable w z hz hv).1, iff_of_false hfails (by simp), by simp⟩
  | true =>
    apply amid_pass hv
    intro v hv
    apply amid_seq (amid_mspRead hv)
    rintro ⟨ret, got⟩ w ⟨before, own, hw, hr⟩
    apply amid_pass hw
    intro z hz y hy
    obtain ⟨hsound, hsends⟩ := sent_stable z y hy hz
    -- `nread` is never below zero
    have hunsigned (x : Word) : (if x ≠ 32 ∧ x < 0 then cspiESystem else cspiOk) = cspiOk :=
      if_neg fun h => BitVec.not_lt_zero h.2
    refine ⟨hsound, iff_of_true (hunsigned _) rfl, fun x hx => ?_⟩
    obtain rfl := Option.some.inj hx
    exact hr.voltages hsends

/-- What an operation ensures. -/
theorem amid_mspSem {turns : ℕ} (op : MspOp) (hu : MspSound adc u) :
    MspAmid adc i (mspSem turns op)
      (fun r w => MspLaw adc ⟨i, op, u, r, w⟩ ∧ MspSound adc w) u := by
  have hstart : Sent adc i u u.starts [] u := ⟨hu, sends_nil⟩
  cases op with
  | voltages stack =>
    apply amid_seq (amid_cspiHealthGetVoltages hu)
    rintro ⟨rc, reading⟩ v ⟨hv, hrc, hlaw⟩ w hw
    refine ⟨⟨hrc, fun x hx => ?_⟩, hw.sound hv⟩
    exact (hlaw x hx).imp (fun ⟨before, e, hs, h⟩ => ⟨before, e, hs.later hw, h⟩) id
  | read count =>
    apply amid_seq (amid_mspRead hstart)
    rintro r v ⟨before, own, hv, hr⟩ w hw
    obtain ⟨hsound, hsends⟩ := sent_stable v w hw hv
    exact ⟨⟨before, own, hsends, hr⟩, hsound⟩
  | opened minor write =>
    have hopen : MspAmid adc i (mspOpen minor write) (fun _ v => MspSound adc v) u := by
      unfold mspOpen
      split
      · exact fun v hv => hv.sound hu
      · apply amid_pass hstart
        exact fun v hv w hw => hw.sound hv.1
    apply amid_seq hopen
    exact fun _ v hv w hw => ⟨trivial, hw.sound hv⟩
  | released =>
    apply amid_pass hstart
    exact fun v hv w hw => ⟨trivial, hw.sound hv.1⟩
  | main =>
    rintro v _ w hv rfl
    have hmain : MspGuar adc i v (v.main adc) := guar_main
    exact ⟨hmain, fun z hz => ⟨trivial, hz.sound (hmain.1 (hv.sound hu))⟩⟩

/-! ## Every run -/

/-- **The supply voltages and the processes that read them.** In every interleaving of reads, opens and
releases with the steps of the monitor's main loop, the commands of a read follow one another, and
what it returns are the voltages of the conversions that they call for: of the next one if the monitor
slept, and otherwise of the last one once more. While the semaphore is free the monitor has made
exactly the conversions that were called for. -/
theorem voltages_shared [DecidableEq ι] {turns : ℕ}
    {ds : List (Done ι MspOp MspResult (MspWorld ι))}
    {t : Crowd ι MspOp MspResult MspCall MspAns (MspWorld ι)}
    (h : Crowd.Run (mspSem turns) (mspServe adc) (.rest (mspBoot adc)) ds t) :
    (∀ d ∈ ds, MspLaw adc d) ∧ (t.world.holder = none →
      t.world.firmware.Settled ∧ t.world.firmware.conversion = conversions t.world.starts) := by
  have hboot : MspSound adc (mspBoot adc : MspWorld ι) :=
    ⟨firstSleep_sound, fun _ => ⟨⟨firstSleep_sound, rfl⟩, rfl, .inr rfl⟩⟩
  have hguar (i j : ι) (u v : MspWorld ι) (hij : i ≠ j) (h : MspGuar adc i u v) :
      MspRely adc j u v := h.2 j hij.symm
  have hstable (i : ι) : Stable (MspRely adc i) (MspSound adc) := fun _ _ hv hu => hv.sound hu
  have hkeeps (i : ι) (u v : MspWorld ι) (h : MspGuar adc i u v) (hu : MspSound adc u) :
      MspSound adc v := h.1 hu
  have hop (i : ι) (op : MspOp) (u : MspWorld ι) (hu : MspSound adc u) :
      MspAmid adc i (mspSem turns op)
        (fun r v => MspLaw adc ⟨i, op, u, r, v⟩ ∧ MspSound adc v) u := amid_mspSem op hu
  obtain ⟨hlaw, hend, -⟩ := h.rule hstable hguar hkeeps hop (fun _ => hboot) hboot
  refine ⟨fun d hd => hlaw d hd, fun hfree => ?_⟩
  have hready := hend.rests hfree
  exact ⟨hready.2, hready.conversion⟩

/-- A process that does not get the semaphore at once is interrupted. -/
def mspHandler (i : Fin 3) : Handler MspCall MspAns (MspWorld (Fin 3))
  | .down, u => if u.holder = none then some ((), { u with holder := some i }) else none
  | .downInterruptible, u =>
    if u.holder = none then some (true, { u with holder := some i }) else some (false, u)
  | .up, u => some ((), { u with holder := none })
  | .exchange tx, u => if u.firmware.main ≠ .woken then
      some (u.firmware.txbuf.setWidth 32, u.exchanged i tx) else none
  | .setSeq n, u => some ((), { u with seq := n })
  | .seq, u => some (u.seq, u)
  | .store rx, u => some ((), { u with buf := Function.update u.buf u.seq rx, seq := u.seq + 1 })
  | .transform, u => some ((), { u with atom := mspTransform fun k => u.buf k })
  | .copyToUser, u => some ((true, u.atom), u)
  | .openDevice, u => some (true, u)
  | .main, u => some ((), u.main numbered)
  | .hang, _ => none

theorem mspHandler_serves (i : Fin 3) (c : MspCall) (u : MspWorld (Fin 3))
    (r : MspAns c × MspWorld (Fin 3)) (h : mspHandler i c u = some r) :
    mspServe numbered i c r.1 u r.2 := by
  cases c with
  | down =>
    obtain ⟨hfree, h⟩ := Option.ite_none_right_eq_some.1 h
    obtain rfl := Option.some.inj h
    exact ⟨hfree, rfl⟩
  | downInterruptible =>
    simp only [mspHandler] at h
    split at h
    · next hfree =>
      obtain rfl := Option.some.inj h
      exact ⟨hfree, rfl⟩
    · obtain rfl := Option.some.inj h
      rfl
  | exchange tx =>
    obtain ⟨hmain, h⟩ := Option.ite_none_right_eq_some.1 h
    obtain rfl := Option.some.inj h
    exact ⟨hmain, rfl, rfl⟩
  | seq =>
    obtain rfl := Option.some.inj h
    exact ⟨rfl, rfl⟩
  | copyToUser =>
    obtain rfl := Option.some.inj h
    exact ⟨fun _ => rfl, rfl⟩
  | hang => cases h
  | _ =>
    obtain rfl := Option.some.inj h
    rfl

/-- Two processes read while the monitor converts. One is interrupted, and then reads before the monitor
has gone back to sleep. -/
def twoReaders : List (Crowd.Slot (Fin 3) MspOp) :=
  let stack : Voltages := fun _ => 7
  [.begin 0 (.voltages stack), .begin 1 (.voltages stack)] ++ List.replicate 3 (.go 1) ++
    List.replicate 5 (.go 0) ++ [.go 1] ++
    (List.replicate 11 [.begin 2 .main, .go 2, .go 2]).flatten ++ List.replicate 43 (.go 0) ++
    List.replicate 3 (.go 1) ++ [.begin 1 (.voltages stack)] ++ List.replicate 48 (.go 1)

/-- The code of the library, what the read returned, and the first voltage. -/
def MspResult.firstVoltage : MspResult → Option (ℤ × ℤ × ℤ)
  | .voltages rc reading => reading.map fun r => (rc, r.1, r.2 ⟨0, by decide⟩)
  | _ => none

theorem twoReaders_played :
    (Crowd.play (mspSem 2) mspHandler twoReaders [] (.rest (mspBoot numbered))).map
      (fun r => r.1.filterMap fun d => d.result.firstVoltage) =
      some [(cspiOk, 32, 315), (cspiOk, -512, 7), (cspiOk, 32, 315)] := by decide +kernel

/-- The second process is first told what was on its stack, and then the voltages of the first one's
conversion. -/
theorem voltages_shared_stale : ∃ (ds : List (Done (Fin 3) MspOp MspResult (MspWorld (Fin 3))))
    (t : Crowd (Fin 3) MspOp MspResult MspCall MspAns (MspWorld (Fin 3))),
    ((∀ d ∈ ds, MspLaw numbered d) ∧ (t.world.holder = none →
      t.world.firmware.Settled ∧ t.world.firmware.conversion = conversions t.world.starts)) ∧
    ds.filterMap (fun d => d.result.firstVoltage) =
      [(cspiOk, 32, 315), (cspiOk, -512, 7), (cspiOk, 32, 315)] := by
  obtain ⟨⟨ds, t⟩, hplay, hout⟩ := Option.map_eq_some_iff.1 twoReaders_played
  exact ⟨ds, t, voltages_shared (Crowd.play_run mspHandler_serves .nil hplay), hout⟩

end LiberaDaq.Msp
