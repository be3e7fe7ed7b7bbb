import LiberaDaq.Dd.Device

/-!
# Where the next read starts

A read that is over has moved the position of the file by the atoms that it reports. That is so when
the transfer was complete or stopped after some atoms, for requests whose start rounds to the
position and to the machine time alike. When a transfer fails, its atoms are reported but the
position is not moved; an interrupted wait is reported as the end of the data, and a read of no
atoms replaces a request in ST or after a trigger by an old machine time. `position_accounted_iff`
has all cases.

The books of a read are kept by `Account`; `Outcome` is what a read can come to.
-/

namespace LiberaDaq.Dd

open LiberaDaq.Cspi LiberaDaq.Interaction Prog
open LiberaDaq.Kernel (eInval eAgain eFault eNoData eRestartSys ddAtomSize)

/-! ## Positions -/

variable {g : Clocks} {q q' : DdLocal}

/-- The LMT at which a read would start at the time `now`, with the last trigger at `trigger`. -/
def DdLocal.startLmt (q : DdLocal) (g : Clocks) (now trigger : LTimestamp) : Option HwTime :=
  match q.request with
  | .explicitSt => g.lst2lmt q.l.lst now
  | .explicitMt => some q.l.lmt
  | .implicit => some (trigger.lmt + q.trigOffset * wide g.d)

/-- The machine time of a start at that LMT. -/
def DdLocal.startMt (q : DdLocal) (g : Clocks) (lmt : HwTime) : HwTime :=
  if q.request = .explicitMt then q.user.mt else g.lmt2mt lmt

/-- The position of a file: the number of the atom at which a read would start. -/
def DdLocal.position (q : DdLocal) (g : Clocks) (now trigger : LTimestamp) : Option ℕ :=
  (q.startLmt g now trigger).map g.atomNumber

theorem position_of_startLmt {now trigger : LTimestamp} {lmt : HwTime}
    (h : q.startLmt g now trigger = some lmt) :
    q.position g now trigger = some (g.atomNumber lmt) := by
  rw [DdLocal.position, h]
  rfl

/-- What decides about the position is the same. -/
structure SameRequest (q q' : DdLocal) : Prop where
  dec : q'.dec = q.dec
  request : q'.request = q.request
  trigOffset : q'.trigOffset = q.trigOffset
  lst : q.request = .explicitSt → q'.l.lst = q.l.lst
  lmt : q.request = .explicitMt → q'.l.lmt = q.l.lmt
  mt : q.request = .explicitMt → q'.user.mt = q.user.mt

theorem SameRequest.refl (q : DdLocal) : SameRequest q q :=
  ⟨rfl, rfl, rfl, fun _ => rfl, fun _ => rfl, fun _ => rfl⟩

theorem SameRequest.startLmt (h : SameRequest q q') : q'.startLmt g = q.startLmt g := by
  funext now trigger
  unfold DdLocal.startLmt
  rw [h.request]
  cases hr : q.request with
  | implicit => simp only [h.trigOffset]
  | explicitSt => simp only [h.lst hr]
  | explicitMt => simp only [h.lmt hr]

theorem SameRequest.position (h : SameRequest q q') : q'.position g = q.position g := by
  funext now trigger
  rw [DdLocal.position, h.startLmt, DdLocal.position]

/-! ## The books of a read -/

/-- What a read was told and what it did: whether it took the device, the last time and trigger it
saw, the word of its command to the FPGA, whether its wait for the interrupt failed, and how its
transfer ended. -/
structure Account where
  taken : Bool := false
  now : LTimestamp := ⟨0, 0⟩
  trigger : LTimestamp := ⟨0, 0⟩
  command : Option Word := none
  interrupted : Bool := false
  ended : Option (Option TransferError × ℕ) := none

/-- The books after an event. -/
def Account.note (e : DdEvent) (a : Account) : Account :=
  match e with
  | ⟨.mutexLockInterruptible, interrupted⟩ => { a with taken := !interrupted }
  | ⟨.getCtime, .ok now⟩ => { a with now := now }
  | ⟨.lastTrigger, trigger⟩ => { a with trigger := trigger }
  | ⟨.writel .ddCbFifoH x, _⟩ => { a with command := some x }
  | ⟨.waitDdIrq, .error _⟩ => { a with interrupted := true }
  | ⟨.transfer _, e⟩ => { a with ended := some (e.error, e.written) }
  | _ => a

/-- The books of a run. -/
def account (tr : List DdEvent) : Account := tr.foldl (fun a e => a.note e) {}

/-- The position in the buffer that the command asks for. -/
def Account.start (a : Account) : Option ℕ := a.command.map fun x => (x &&& 0x1FFFFF).toNat

/-- The environment that keeps the books. -/
abbrev keeping : Serves DdCall DdAns Account := watch Account.note

theorem served_account {tr : List DdEvent} : Served keeping tr {} (account tr) := served_watch.2 rfl

/-! ## What a read can come to -/

/-- The atoms that a read of so many bytes asks for. -/
def atomsOf (count : ℕ) : ℕ := count / ddAtomSize

/-- The outcomes of a read, with the books of it. -/
inductive Outcome (g : Clocks) (q : DdLocal) (count : ℕ) (a : Account) : ℤ → DdLocal → Prop
  | refused {ret : ℤ} {q' : DdLocal} : ret < 0 → SameRequest q q' → a.interrupted = false →
      a.ended = none → a.start = none → (count = 0 → a.taken = false) → Outcome g q count a ret q'
  | nothing : count = 0 → a.taken = true → a.interrupted = false → a.ended = none →
      a.start = none → Outcome g q count a 0 (q.continueAfter g 0)
  | interrupted {q' : DdLocal} {lmt : HwTime} : count ≠ 0 → SameRequest q q' →
      a.interrupted = true → a.ended = none → q.startLmt g a.now a.trigger = some lmt →
      a.start = some (g.getCircOffsetLmt lmt) → Outcome g q count a 0 q'
  | failed {q' : DdLocal} {error : TransferError} {lmt : HwTime} {n : ℕ} : count ≠ 0 →
      SameRequest q q' → a.interrupted = false → a.ended = some (some error, n) →
      q.startLmt g a.now a.trigger = some lmt → a.start = some (g.getCircOffsetLmt lmt) →
      Outcome g q count a (n * ddAtomSize : ℕ) q'
  | done {q₁ : DdLocal} {lmt : HwTime} {n : ℕ} : count ≠ 0 → a.interrupted = false →
      a.ended = some (none, n) → q.startLmt g a.now a.trigger = some lmt →
      q₁.user.mt = q.startMt g lmt → q₁.dec = q.dec →
      a.start = some (g.getCircOffsetLmt lmt) →
      Outcome g q count a (n * ddAtomSize : ℕ) (q₁.continueAfter g n)

/-! ## The waits -/

variable {a : Account} {count turns : ℕ}

theorem WaitError.ret_neg (e : WaitError) : e.ret < 0 := by
  cases e <;> decide

/-- A wait that ended: its code is not positive, and only the time was noted, which the wait leaves
when it was not in vain. -/
def Waited (a : Account) (r : ℤ × LTimestamp) (a' : Account) : Prop :=
  r.1 ≤ 0 ∧ ∃ now, a' = { a with now := now } ∧ (r.1 = 0 → now = r.2)

theorem wlp_sleepUntil {clock : Clock} {start delta : HwTime} :
    (sleepUntil g clock start delta turns).wlp keeping (Waited a) a := by
  induction turns generalizing delta a with
  | zero => exact fun e => Empty.elim e
  | succ turns ih =>
    rintro _ a rfl x a' hx
    obtain rfl : a' = a.note ⟨.getCtime, x⟩ := hx
    rcases x with e | ctime
    · exact ⟨e.ret_neg.le, a.now, rfl, fun h => absurd h e.ret_neg.ne⟩
    · change (if (g.deltaEnd (clock.read ctime) start).toInt < 0 then _ else _ : DdProg _).wlp _ _ _
      split
      · refine wlp_mono (ih (a := { a with now := ctime })) ?_
        rintro r _ ⟨hr, now, rfl, hnow⟩
        exact ⟨hr, now, rfl, hnow⟩
      · exact ⟨le_rfl, ctime, rfl, fun _ => rfl⟩

theorem wlp_waitClock {clock : Clock} {start : HwTime} :
    (waitClock g clock a.now start turns).wlp keeping (Waited a) a := by
  unfold waitClock
  split
  · exact ⟨show -eNoData ≤ 0 by decide, a.now, rfl, fun _ => rfl⟩
  · dsimp only
    split
    · split
      · exact ⟨show -eAgain ≤ 0 by decide, a.now, rfl, fun _ => rfl⟩
      · exact wlp_sleepUntil
    · exact ⟨le_rfl, a.now, rfl, fun _ => rfl⟩

/-- What follows the wait for the data finds: the start of the interval, in LMT and in MT. -/
def Awaited (g : Clocks) (q : DdLocal) (a : Account) (r : ℤ × DdLocal) (a' : Account) : Prop :=
  r.1 ≤ 0 ∧ SameRequest q r.2 ∧
    (∃ now trigger, a' = { a with now := now, trigger := trigger }) ∧
    (r.1 = 0 → q.startLmt g a'.now a'.trigger = some r.2.l.lmt ∧
      r.2.user.mt = q.startMt g r.2.l.lmt)

theorem wlp_await : (q.await g a.now turns).wlp keeping (Awaited g q a) a := by
  unfold DdLocal.await
  split
  · next hr =>
    refine wlp_seq wlp_waitClock ?_
    rintro ⟨ret, ctime⟩ _ ⟨hret, now, rfl, hnow⟩
    dsimp only at hret hnow ⊢
    split
    · next h => exact ⟨hret, .refl q, ⟨now, a.trigger, rfl⟩, fun h0 => absurd h0 h⟩
    · next h =>
      obtain rfl := hnow (not_not.1 h)
      split
      · exact ⟨show -eRange ≤ 0 by decide, .refl q, ⟨now, a.trigger, rfl⟩,
          fun h0 => absurd (show -eRange = 0 from h0) (by decide)⟩
      · next lmt hlmt =>
        refine ⟨le_rfl, ⟨rfl, rfl, rfl, fun _ => rfl, fun h => ?_, fun h => ?_⟩,
          ⟨now, a.trigger, rfl⟩, fun _ => ⟨?_, ?_⟩⟩
        · rw [hr] at h
          cases h
        · rw [hr] at h
          cases h
        · rw [DdLocal.startLmt, hr]
          exact hlmt
        · rw [DdLocal.startMt, hr]
          rfl
  · next hr =>
    refine wlp_seq wlp_waitClock ?_
    rintro ⟨ret, ctime⟩ _ ⟨hret, now, rfl, hnow⟩
    dsimp only at hret hnow ⊢
    split
    · next h => exact ⟨hret, .refl q, ⟨now, a.trigger, rfl⟩, fun h0 => absurd h0 h⟩
    · next h =>
      split
      · exact ⟨show -eRange ≤ 0 by decide, .refl q, ⟨now, a.trigger, rfl⟩,
          fun h0 => absurd (show -eRange = 0 from h0) (by decide)⟩
      · next lst hlst =>
        refine ⟨le_rfl, ⟨rfl, rfl, rfl, fun h => ?_, fun _ => rfl, fun _ => rfl⟩,
          ⟨now, a.trigger, rfl⟩, fun _ => ⟨?_, ?_⟩⟩
        · rw [hr] at h
          cases h
        · rw [DdLocal.startLmt, hr]
        · rw [DdLocal.startMt, if_pos hr]
  · next hr =>
    refine wlp_perform_bind.2 ?_
    rintro trigger _ rfl
    have hsame (l : LTimestamp) (user : UTimestamp) :
        SameRequest q { q with l := l, user := user } := by
      refine ⟨rfl, rfl, rfl, fun h => ?_, fun h => ?_, fun h => ?_⟩ <;>
      · rw [hr] at h
        cases h
    dsimp only
    split
    · exact ⟨show -eRange ≤ 0 by decide, hsame _ q.user, ⟨a.now, trigger, rfl⟩,
        fun h0 => absurd (show -eRange = 0 from h0) (by decide)⟩
    · next lst hlst =>
      refine wlp_seq (wlp_waitClock (a := { a with trigger := trigger })) ?_
      rintro ⟨ret, ctime⟩ _ ⟨hret, now, rfl, hnow⟩
      refine ⟨hret, hsame _ _, ⟨now, trigger, rfl⟩, fun _ => ⟨?_, ?_⟩⟩
      · rw [DdLocal.startLmt, hr]
      · rw [DdLocal.startMt, hr]
        rfl

/-! ## The read -/

/-- The low bits of a word. -/
theorem and_low (x : Word) : (x &&& 0x1FFFFF).toNat = x.toNat % ddCircbufAtoms := by
  rw [BitVec.toNat_and]
  exact Nat.and_two_pow_sub_one_eq_mod x.toNat 21

/-- The command holds the position in its low bits. -/
theorem command_start (filtDec : Word) {start : ℕ} (h : start < ddCircbufAtoms) :
    (((filtDec &&& 0x3) <<< 30 ||| BitVec.ofNat 32 start &&& 0x1FFFFF) &&& 0x1FFFFF).toNat =
      start := by
  have hhigh : (filtDec &&& 0x3) <<< 30 &&& 0x1FFFFF = 0#32 := by
    apply BitVec.eq_of_toNat_eq
    rw [and_low, BitVec.toNat_shiftLeft, Nat.shiftLeft_eq]
    simp only [ddCircbufAtoms, BitVec.toNat_zero]
    omega
  rw [BitVec.and_or_distrib_right, hhigh, BitVec.and_assoc, BitVec.and_self, BitVec.zero_or,
    and_low,
    BitVec.toNat_ofNat]
  simp only [ddCircbufAtoms] at h ⊢
  omega

theorem wlp_writeCbFifo {start atoms : ℕ} {dec : Word} (h : start < ddCircbufAtoms) :
    (writeCbFifo start atoms dec).wlp keeping (fun ret a' => (ret < 0 → a' = a) ∧
      (¬ret < 0 → ∃ x, a' = { a with command := some x } ∧ a'.start = some start)) a := by
  unfold writeCbFifo
  dsimp only
  split
  · exact ⟨fun _ => rfl, fun h => absurd (show -eInval < 0 by decide) h⟩
  · rintro _ _ rfl _ _ rfl
    refine ⟨fun h => absurd h (lt_irrefl _), fun _ => ⟨_, rfl, ?_⟩⟩
    exact congrArg some (command_start _ h)

theorem wlp_transfer {q₁ : DdLocal} {count p : ℕ} {lmt : HwTime} (hcount : count ≠ 0)
    (hsame : SameRequest q q₁) (hi : a.interrupted = false) (he : a.ended = none)
    (hnone : a.start = none) (hlmt : q.startLmt g a.now a.trigger = some lmt) (hl : q₁.l.lmt = lmt)
    (hmt : q₁.user.mt = q.startMt g lmt) :
    (q₁.transfer g p).wlp keeping (fun r a' => Outcome g q count a' r.1 r.2) a := by
  refine wlp_seq (wlp_writeCbFifo (g.getCircOffsetLmt_lt _)) ?_
  rintro ret a₁ ⟨hbad, hok⟩
  split
  · next hneg =>
    obtain rfl := hbad hneg
    exact .refused hneg hsame hi he hnone fun h => absurd h hcount
  · next hneg =>
    obtain ⟨x, rfl, hstart⟩ := hok hneg
    rw [hl] at hstart
    refine wlp_perform_bind.2 ?_
    rintro (e | _) _ rfl
    · exact .interrupted hcount hsame rfl he hlmt hstart
    · refine wlp_perform_bind.2 ?_
      rintro e _ rfl
      split
      · next herr =>
        obtain ⟨error, herror⟩ := Option.isSome_iff_exists.1 herr
        rintro _ _ rfl
        exact .failed hcount hsame hi (congrArg (fun x => some (x, e.written)) herror) hlmt hstart
      · next herr =>
        have herror : e.error = none := by simpa using herr
        exact .done hcount hi (congrArg (fun x => some (x, e.written)) herror) hlmt hmt hsame.dec
          hstart

/-- **What a read can come to**, whatever is answered. -/
theorem wlp_read : (q.read g count turns).wlp keeping
    (fun r a => Outcome g q count a r.1 r.2) {} := by
  refine wlp_perform_bind.2 ?_
  rintro (_ | _) _ rfl
  · suffices h : (q.readLocked g count turns).wlp keeping
        (fun r a => Outcome g q count a r.1 r.2) { taken := true } by
      refine wlp_seq h ?_
      rintro r a hr _ _ rfl _ _ rfl
      exact hr
    have hinval : -eInval < 0 := by decide
    unfold DdLocal.readLocked
    split
    · next hbig =>
      refine .refused hinval (.refl q) rfl rfl rfl fun h => ?_
      rw [h] at hbig
      exact absurd hbig (Nat.not_lt_zero _)
    · split
      · next hodd =>
        refine .refused hinval (.refl q) rfl rfl rfl fun h => ?_
        rw [h] at hodd
        exact absurd rfl hodd
      · next hodd =>
        split
        · next hzero =>
          refine .nothing ?_ rfl rfl rfl rfl
          rw [← Nat.div_add_mod count ddAtomSize, hzero, not_not.1 hodd, mul_zero]
        · next hzero =>
          have hcount : count ≠ 0 := by
            rintro rfl
            exact hzero rfl
          refine wlp_perform_bind.2 ?_
          intro x a' hx
          obtain rfl : a' = Account.note ⟨.getCtime, x⟩ { taken := true } := hx
          rcases x with e | ctime
          · exact .refused e.ret_neg (.refl q) rfl rfl rfl fun h => absurd h hcount
          · refine wlp_seq (wlp_await (a := { taken := true, now := ctime })) ?_
            rintro ⟨ret, q₁⟩ _ ⟨hret, hsame, ⟨now, trigger, rfl⟩, hstart⟩
            dsimp only at hret hsame hstart ⊢
            split
            · next hne =>
              exact .refused (lt_of_le_of_ne hret hne) hsame rfl rfl rfl fun h => absurd h hcount
            · next hne =>
              obtain ⟨hlmt, hmt⟩ := hstart (not_not.1 hne)
              exact wlp_transfer hcount ⟨hsame.dec, hsame.request, hsame.trigOffset, hsame.lst,
                hsame.lmt, hsame.mt⟩ rfl rfl rfl hlmt rfl hmt
  · exact .refused (show -eRestartSys < 0 by decide) (.refl q) rfl rfl rfl fun _ => rfl

/-! ## The law -/

/-- The position is accounted for by a read with the result `ret`: a read that reports an error or
no atom leaves it as it was, and reports no atom only when none was asked for; a read that reports
atoms started at the position and moved it by as many atoms, times the decimation. -/
structure Accounted (g : Clocks) (q q' : DdLocal) (count : ℕ) (a : Account) (ret : ℤ) : Prop where
  error : ret < 0 → q'.position g = q.position g
  zero : ret = 0 → count = 0 ∧ q'.position g = q.position g
  atoms : 0 < ret → ∃ p, q.position g a.now a.trigger = some p ∧
    a.start = some (p % ddCircbufAtoms) ∧
    ∀ now trigger, q'.position g now trigger =
      some (p + (ret / ddAtomSize).toNat * q.dec.toNat)

/-- The machine time after `n` atoms stands for the atom that comes next: their product with the
decimation, in 32 bits, and the slip of the roundings make up for what they are apart. -/
def Exact (g : Clocks) (q : DdLocal) (lmt mt : HwTime) (n : ℕ) : Prop :=
  ((BitVec.ofNat 32 n * q.dec).toNat : ℤ) + g.slip lmt mt (BitVec.ofNat 32 n * q.dec) =
    (n * q.dec.toNat : ℕ)

/-- Nothing goes wrong in the read: its wait for the interrupt is not cut off, its transfer ends
without an error and after some atoms, and the start of these rounds to the position and to the
machine time alike; a read of no atoms finds a request in MT, with the same roundings. -/
structure Faultless (g : Clocks) (q : DdLocal) (count : ℕ) (a : Account) : Prop where
  interrupt : a.interrupted = false
  transfer : ∀ error n, a.ended = some (error, n) → error = none ∧ n ≠ 0
  rounding : ∀ n lmt, a.ended = some (none, n) → q.startLmt g a.now a.trigger = some lmt →
    Exact g q lmt (q.startMt g lmt) n
  zero : count = 0 → a.taken = true → q.request = .explicitMt ∧ Exact g q q.l.lmt q.user.mt 0

theorem position_continueAfter {n : ℕ} (now trigger : LTimestamp) :
    (q.continueAfter g n).position g now trigger =
      some (g.atomNumber (g.nextLmt q.user.mt (BitVec.ofNat 32 n * q.dec))) := rfl

/-- The next start is `n` atoms, times the decimation, after the position of this one exactly if the
machine time is exact. -/
theorem atomNumber_iff {lmt mt : HwTime} {n : ℕ} :
    g.atomNumber (g.nextLmt mt (BitVec.ofNat 32 n * q.dec)) =
      g.atomNumber lmt + n * q.dec.toNat ↔ Exact g q lmt mt n := by
  have hatom : (g.atomNumber (g.nextLmt mt (BitVec.ofNat 32 n * q.dec)) : ℤ) =
      g.atomNumber lmt + (BitVec.ofNat 32 n * q.dec).toNat +
        g.slip lmt mt (BitVec.ofNat 32 n * q.dec) := atomNumber_nextLmt _
  rw [Exact]
  omega

/-- Two starts a machine cycle apart are at different atoms. -/
theorem exists_atomNumber_ne (k : ℕ) : ∃ lmt, g.atomNumber lmt ≠ k := by
  by_contra h
  simp only [ne_eq, not_exists, not_not] at h
  -- the counter values for which the dividend is `0` and `d`
  have hnum (x : HwTime) :
      g.atomNumber (x + (g.off + g.hbStart) - wide (g.d / 2)) = x.toNat / g.d.toNat := by
    rw [Clocks.atomNumber, divU64_toNat, Clocks.fromStart]
    congr 2
    ring
  have h0 := (hnum 0).symm.trans (h _)
  have h1 := (hnum (wide g.d)).symm.trans (h _)
  rw [wide_toNat, Nat.div_self g.d_pos] at h1
  rw [show (0 : HwTime).toNat = 0 from rfl, Nat.zero_div] at h0
  omega

/-- The position of a request in ST or after a trigger is not fixed. -/
theorem position_not_fixed (hr : q.request ≠ .explicitMt) (k : ℕ) :
    ∃ now trigger, q.position g now trigger ≠ some k := by
  obtain ⟨lmt, hlmt⟩ := exists_atomNumber_ne (g := g) k
  cases hreq : q.request with
  | explicitMt => exact absurd hreq hr
  | explicitSt =>
    refine ⟨⟨q.l.lst, lmt⟩, ⟨0, 0⟩, fun h => hlmt ?_⟩
    have hstart : q.startLmt g ⟨q.l.lst, lmt⟩ ⟨0, 0⟩ = some lmt := by
      rw [DdLocal.startLmt, hreq]
      simp [Clocks.lst2lmt, divU64]
    exact Option.some.inj ((position_of_startLmt hstart).symm.trans h)
  | implicit =>
    refine ⟨⟨0, 0⟩, ⟨0, lmt - q.trigOffset * wide g.d⟩, fun h => hlmt ?_⟩
    have hstart : q.startLmt g ⟨0, 0⟩ ⟨0, lmt - q.trigOffset * wide g.d⟩ = some lmt := by
      rw [DdLocal.startLmt, hreq]
      exact congrArg some (sub_add_cancel _ _)
    exact Option.some.inj ((position_of_startLmt hstart).symm.trans h)

/-! ## Each outcome -/

theorem accounted_refused {ret : ℤ} (hneg : ret < 0) (hsame : SameRequest q q') :
    Accounted g q q' count a ret :=
  ⟨fun _ => hsame.position, fun h => absurd h hneg.ne, fun h => absurd h hneg.not_gt⟩

theorem accounted_nothing (hcount : count = 0) : Accounted g q (q.continueAfter g 0) count a 0 ↔
    q.request = .explicitMt ∧ Exact g q q.l.lmt q.user.mt 0 := by
  have hnext (now trigger : LTimestamp) : (q.continueAfter g 0).position g now trigger =
      some (g.atomNumber (g.nextLmt q.user.mt (BitVec.ofNat 32 0 * q.dec))) := rfl
  constructor
  · intro h
    have hpos := (h.zero rfl).2
    have hreq : q.request = .explicitMt := by
      by_contra hreq
      obtain ⟨now, trigger, hne⟩ := position_not_fixed (g := g) hreq _
      exact hne ((congrFun (congrFun hpos now) trigger).symm.trans (hnext now trigger))
    refine ⟨hreq, atomNumber_iff.1 ?_⟩
    have hhere : q.position g ⟨0, 0⟩ ⟨0, 0⟩ = some (g.atomNumber q.l.lmt) :=
      position_of_startLmt (by rw [DdLocal.startLmt, hreq])
    rw [zero_mul, add_zero]
    exact Option.some.inj (((hnext _ _).symm.trans (congrFun (congrFun hpos _) _)).trans hhere)
  · rintro ⟨hreq, hexact⟩
    refine ⟨fun h => absurd h (lt_irrefl _), fun _ => ⟨hcount, ?_⟩, fun h => absurd h (lt_irrefl _)⟩
    funext now trigger
    rw [hnext, atomNumber_iff.2 hexact, zero_mul, add_zero, DdLocal.position, DdLocal.startLmt,
      hreq]
    rfl

/-- A failed transfer is never accounted for: its atoms are reported, but the position stays. -/
theorem not_accounted_failed {lmt : HwTime} {n : ℕ} (hcount : count ≠ 0)
    (hsame : SameRequest q q') (hlmt : q.startLmt g a.now a.trigger = some lmt) :
    ¬Accounted g q q' count a (n * ddAtomSize : ℕ) := by
  intro h
  have hpos := position_of_startLmt hlmt
  have hsize : 0 < ddAtomSize := by decide
  rcases Nat.eq_zero_or_pos n with rfl | hn
  · exact hcount (h.zero rfl).1
  · obtain ⟨p', hp, -, hnext⟩ := h.atoms (by exact_mod_cast Nat.mul_pos hn hsize)
    have hmoved := hnext a.now a.trigger
    rw [hsame.position, hpos] at hmoved
    obtain rfl := Option.some.inj (hpos.symm.trans hp)
    have hdec : 0 < q.dec.toNat := by
      have := q.dec_ne
      rw [Nat.pos_iff_ne_zero]
      exact fun h0 => this (BitVec.eq_of_toNat_eq h0)
    have hatoms : ((n * ddAtomSize : ℕ) / ddAtomSize : ℤ).toNat = n := by
      rw [← Int.natCast_ediv, Nat.mul_div_cancel _ hsize, Int.toNat_natCast]
    have hpn : 0 < n * q.dec.toNat := Nat.mul_pos hn hdec
    rw [hatoms] at hmoved
    have := Option.some.inj hmoved
    omega

theorem accounted_done {q₁ : DdLocal} {lmt : HwTime} {n : ℕ} (hcount : count ≠ 0)
    (hlmt : q.startLmt g a.now a.trigger = some lmt) (hmt : q₁.user.mt = q.startMt g lmt)
    (hdec : q₁.dec = q.dec) (hstart : a.start = some (g.getCircOffsetLmt lmt)) :
    Accounted g q (q₁.continueAfter g n) count a (n * ddAtomSize : ℕ) ↔
      n ≠ 0 ∧ Exact g q lmt (q.startMt g lmt) n := by
  have hsize : 0 < ddAtomSize := by decide
  have hpos := position_of_startLmt hlmt
  have hnext (now trigger : LTimestamp) : (q₁.continueAfter g n).position g now trigger =
      some (g.atomNumber (g.nextLmt (q.startMt g lmt) (BitVec.ofNat 32 n * q.dec))) := by
    rw [position_continueAfter, hmt, hdec]
  have hatoms : ((n * ddAtomSize : ℕ) / ddAtomSize : ℤ).toNat = n := by
    rw [← Int.natCast_ediv, Nat.mul_div_cancel _ hsize, Int.toNat_natCast]
  constructor
  · intro h
    rcases Nat.eq_zero_or_pos n with rfl | hn
    · exact absurd (h.zero rfl).1 hcount
    · refine ⟨hn.ne', atomNumber_iff.1 ?_⟩
      obtain ⟨p, hp, -, hmoved⟩ := h.atoms (by exact_mod_cast Nat.mul_pos hn hsize)
      obtain rfl := Option.some.inj (hpos.symm.trans hp)
      rw [hatoms] at hmoved
      exact Option.some.inj ((hnext ⟨0, 0⟩ ⟨0, 0⟩).symm.trans (hmoved ⟨0, 0⟩ ⟨0, 0⟩))
  · rintro ⟨hn, hexact⟩
    have hret : (0 : ℤ) < (n * ddAtomSize : ℕ) := by
      exact_mod_cast Nat.mul_pos (Nat.pos_of_ne_zero hn) hsize
    refine ⟨fun h => absurd h hret.not_gt, fun h => absurd h hret.ne', fun _ => ?_⟩
    refine ⟨g.atomNumber lmt, hpos, hstart, fun now trigger => ?_⟩
    rw [hnext, atomNumber_iff.2 hexact, hatoms]

/-- Only a read of no atoms can go wrong without a wait and a transfer. -/
theorem faultless_without_transfer (hi : a.interrupted = false) (he : a.ended = none)
    (hzero : count = 0 → a.taken = true →
      q.request = .explicitMt ∧ Exact g q q.l.lmt q.user.mt 0) : Faultless g q count a := by
  refine ⟨hi, fun error n h => ?_, fun n lmt h => ?_, hzero⟩
  · rw [he] at h
    cases h
  · rw [he] at h
    cases h

theorem accounted_iff {ret : ℤ} (h : Outcome g q count a ret q') :
    Accounted g q q' count a ret ↔ Faultless g q count a := by
  cases h with
  | refused hneg hsame hi he hnone hzero =>
    refine iff_of_true (accounted_refused hneg hsame)
      (faultless_without_transfer hi he fun hcount htaken => ?_)
    rw [hzero hcount] at htaken
    cases htaken
  | nothing hcount htaken hi he hnone =>
    refine (accounted_nothing hcount).trans ⟨fun h => ?_, fun h => h.zero hcount htaken⟩
    exact faultless_without_transfer hi he fun _ _ => h
  | interrupted hcount hsame hi he hlmt hstart =>
    refine iff_of_false (fun h => hcount (h.zero rfl).1) fun h => ?_
    exact Bool.noConfusion (hi.symm.trans h.interrupt)
  | failed hcount hsame hi he hlmt hstart =>
    refine iff_of_false (not_accounted_failed hcount hsame hlmt) fun h => ?_
    cases (h.transfer _ _ he).1
  | done hcount hi he hlmt hmt hdec hstart =>
    refine (accounted_done hcount hlmt hmt hdec hstart).trans ⟨?_, fun h => ?_⟩
    · rintro ⟨hn, hexact⟩
      refine ⟨hi, fun error n h => ?_, fun n lmt' h hlmt' => ?_, fun h => absurd h hcount⟩
      · obtain ⟨rfl, rfl⟩ := Prod.mk.inj (Option.some.inj (he.symm.trans h))
        exact ⟨rfl, hn⟩
      · obtain ⟨-, rfl⟩ := Prod.mk.inj (Option.some.inj (he.symm.trans h))
        obtain rfl := Option.some.inj (hlmt.symm.trans hlmt')
        exact hexact
    · exact ⟨(h.transfer _ _ he).2, h.rounding _ _ he hlmt⟩

/-- **Position accounting.** After any read, whatever is answered, the position at which the next
one starts is that of this one, moved by the atoms that were reported, exactly when nothing went
wrong in the read. -/
theorem position_accounted_iff {tr : List DdEvent} {ret : ℤ}
    (hr : (q.read g count turns).Runs tr (ret, q')) :
    Accounted g q q' count (account tr) ret ↔ Faultless g q count (account tr) :=
  accounted_iff (hr.of_wlp served_account wlp_read)

/-! ### A transfer that is cut off -/

/-- A machine cycle of 128 steps, and the history buffer started at its first entry. -/
def sampleClocks : Clocks := ⟨128, by decide, 1080000000, 0, 0x8000000⟩

/-- The last trigger was 100 atoms after the start of the buffer and is long past, and transfers end
after `n` atoms, with an error or without one. -/
def answering (error : Option TransferError) (n : ℕ) : Handler DdCall DdAns Unit
  | .mutexLockInterruptible, _ => some (false, ())
  | .getCtime, _ => some (.ok ⟨2000000, 0x8000000 + 30000⟩, ())
  | .lastTrigger, _ => some (⟨1900000, 0x8000000 + 12800⟩, ())
  | .waitDdIrq, _ => some (.ok (), ())
  | .transfer atoms, _ => some (⟨error, min n atoms, min_le_right n atoms⟩, ())
  | .copyFromUser, _ => some ((0, 1), ())
  | .forever, _ => none
  | .mutexUnlock, _ | .delay _, _ | .writel _ _, _ | .enableDdInterrupt, _ => some ((), ())

theorem cutOff_exec : ∃ q' tr, (DdLocal.opened.read sampleClocks 128 1).exec
    (answering (some .restartSys) 3) () = some ((96, q'), (), tr) ∧
      (account tr).ended = some (some .restartSys, 3) := ⟨_, _, rfl, rfl⟩

/-- A signal ends the transfer after three of four atoms. They are reported, but the next read
starts at the same position. -/
theorem cutOff_not_accounted : ¬∀ (g : Clocks) (turns : ℕ) (ms : List DdMove) (q : DdLocal),
    History (ddStep g turns) .opened ms q → ∀ count tr ret q',
      (q.read g count turns).Runs tr (ret, q') → Accounted g q q' count (account tr) ret := by
  intro h
  obtain ⟨q', tr, hexec, hended⟩ := cutOff_exec
  have hr := exec_runs hexec
  have hf := (accounted_iff (hr.of_wlp served_account wlp_read)).1 (h _ 1 [] _ (.nil _) _ _ _ _ hr)
  cases (hf.transfer _ _ hended).1

/-- A transfer that is complete. -/
theorem position_accounted_complete : ∃ tr q',
    (DdLocal.opened.read sampleClocks 128 1).Runs tr (128, q') ∧
      (Accounted sampleClocks .opened q' 128 (account tr) 128 ↔
        Faultless sampleClocks .opened 128 (account tr)) := by
  have hexec : ∃ q' tr, (DdLocal.opened.read sampleClocks 128 1).exec (answering none 4) () =
      some ((128, q'), (), tr) := ⟨_, _, rfl⟩
  obtain ⟨q', tr, hexec⟩ := hexec
  exact ⟨tr, q', exec_runs hexec, position_accounted_iff (exec_runs hexec)⟩

end LiberaDaq.Dd
