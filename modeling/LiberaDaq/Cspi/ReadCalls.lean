import LiberaDaq.Cspi.Handles

/-!
# The calls of cspi_read

`cspi_read` as a program over the calls that it makes itself: to the device, for memory, and for the
refresh of the calibration. The library is this program with each of these calls carried out
(`read_eq`), so what its code says can be told from the answers to these calls. Each of the three
read routines has few runs (`DdRead`, `AdcRead`, `AdcTransformed`, `AvgRead`).
-/

namespace LiberaDaq.Cspi

open LiberaDaq.Interaction

/-! ## The calls of cspi_read -/

/-- The calls that `cspi_read` makes itself. -/
inductive ReadCall
  /-- `custom_initop`. -/
  | initop
  /-- The members of the cache by which `custom_getdefaultop` chooses. -/
  | spikes
  | calloc
  | free
  /-- `cspi_seek` to the trigger. -/
  | seek
  /-- A `read` of `n` bytes into the buffer of the client or into an own one. -/
  | read (own : Bool) (kind : AtomKind) (n : Word)
  /-- The query for the time stamp of the data. -/
  | stamp (pm : Bool)
  /-- `cspi_getenvparam` for the sum of the average. -/
  | average
  /-- `*nread = n`. -/
  | nread (n : Word)
  /-- An operator on `n` atoms. -/
  | apply (op : Operator) (atom : ℕ → Atom) (n : ℕ)
  /-- Atoms that are assigned to the buffer of the client. -/
  | put (atoms : List Atom)

/-- What such a call gives back; an operator, the members of the atoms that it leaves. -/
abbrev ReadAns : ReadCall → Type
  | .initop | .seek => ℤ
  | .spikes | .calloc | .stamp _ => Bool
  | .read _ _ n => Option (Received n.toNat)
  | .average => ℤ × Word
  | .apply _ _ _ => ℕ → List Word
  | .free | .nread _ | .put _ => Unit

abbrev ReadProg := Prog ReadCall ReadAns

abbrev ReadEvent := Event ReadCall ReadAns

/-- A call of `cspi_read`. -/
abbrev ask (c : ReadCall) : ReadProg (ReadAns c) := Prog.perform c

/-- `custom_getdefaultop`. -/
def customGetdefaultop : Mode → ReadProg (Option Operator)
  | .dd => do
    let _ ← ask .initop
    let spikes : Bool ← ask .spikes
    pure (some (if spikes then .transformDdRemoveSpikes else .transformDd))
  | .pm => pure (some .transformDd)
  | .adcCw => pure (some .transformAdcCw)
  | .adcSp => pure (some .transformAdcSp)
  | .adcSpRot => pure (some .transformAdcSpRot)
  | _ => pure none

/-- `read_dd`. -/
def readDd (mode : Mode) (count : Word) (op : Option Operator) : ReadProg ReadResult := do
  match ← ask (.read false .dd (nbytes count .dd)) with
  | none => pure ⟨cspiESystem, 0, []⟩
  | some r => do
    let ok : Bool ← ask (.stamp (mode ≠ .dd))
    if ok then do
      let nb := r.bytes / AtomKind.dd.size
      ask (.nread (BitVec.ofNat 32 nb))
      let rc : ℤ := if nb ≠ count.toNat then cspiWIncomplete else cspiOk
      match op with
      | none => pure ⟨rc, BitVec.ofNat 32 nb, r.whole .dd⟩
      | some op => do
        let rc' : ℤ ← ask .initop
        if rc' ≠ cspiOk then pure ⟨rc', BitVec.ofNat 32 nb, r.whole .dd⟩
        else do
          let members ← ask (.apply op r.atom nb)
          pure ⟨rc, BitVec.ofNat 32 nb, op.atoms members nb⟩
    else pure ⟨cspiESystem, 0, r.whole .dd⟩

/-- The end of `read_adc`, where it releases a buffer of its own. -/
def release (mode : Mode) (r : ReadResult) : ReadProg ReadResult :=
  if mode = .adc then pure r
  else do
    ask .free
    pure r

/-- The buffer of `read_adc`. -/
def readAdcBuffer (mode : Mode) : ReadProg Bool :=
  if mode = .adc then pure true else ask .calloc

/-- `read_adc`, when it has a buffer. -/
def readAdcInto (mode : Mode) (count : Word) (op : Option Operator) : ReadProg ReadResult := do
  match ← ask (.read (mode ≠ .adc) .adc (nbytes count .adc)) with
  | none => release mode ⟨cspiESystem, 0, []⟩
  | some r => do
    let data := if mode = .adc then r.whole .adc else []
    let rc : ℤ := if r.bytes ≠ (nbytes count .adc).toNat then cspiWIncomplete else cspiOk
    let eread := r.bytes / AtomKind.adc.size
    ask (.nread (BitVec.ofNat 32 eread))
    match op with
    | none => release mode ⟨rc, BitVec.ofNat 32 eread, data⟩
    | some op => do
      let rc' : ℤ ← ask .initop
      -- this return does not release the buffer
      if rc' ≠ cspiOk then pure ⟨rc', BitVec.ofNat 32 eread, data⟩
      else do
        let members ← ask (.apply op r.atom eread)
        if mode = .adcSp ∨ mode = .adcSpRot then do
          ask (.nread 1)
          release mode ⟨rc', 1, op.atoms members eread⟩
        else release mode ⟨rc', BitVec.ofNat 32 eread, op.atoms members eread⟩

/-- `read_adc`. -/
def readAdc (mode : Mode) (count : Word) (op : Option Operator) : ReadProg ReadResult := do
  if ← readAdcBuffer mode then readAdcInto mode count op
  else pure ⟨cspiEMalloc, 0, []⟩

/-- `read_avg`. -/
def readAvg : ReadProg ReadResult := do
  ask (.nread 0)
  let rc : ℤ ← ask .seek
  if rc ≠ cspiOk then pure ⟨rc, 0, []⟩
  else do
    match ← ask (.read true .dd (BitVec.ofNat 32 AtomKind.dd.size)) with
    | none => pure ⟨cspiESystem, 0, []⟩
    | some _ => do
      let ok : Bool ← ask (.stamp false)
      if ok then do
        let (rc, avesum) ← ask .average
        if rc ≠ cspiOk then pure ⟨rc, 0, []⟩
        else do
          ask (.nread 1)
          ask (.put [⟨.average, [avesum]⟩])
          pure ⟨rc, 1, [⟨.average, [avesum]⟩]⟩
      else pure ⟨cspiESystem, 0, []⟩

/-- `cspi_read_ex`, for a connection in a mode that is connected. -/
def readEx (mode : Mode) (count : Word) (op : Option Operator) : ReadProg ReadResult :=
  match mode with
  | .sa => pure ⟨cspiEIllegalCall, 0, []⟩
  | .adc | .adcCw | .adcSp | .adcSpRot => readAdc mode count op
  | .average => readAvg
  | .dd | .pm | .unknown => readDd mode count op

/-- `cspi_read`, for a connection in a mode that is connected. -/
def cspiRead (mode : Mode) (count : Word) : ReadProg ReadResult := do
  let op ← customGetdefaultop mode
  readEx mode count op

/-! ## The library carries them out -/

section

variable (tf : Transform) (p : ℕ) (c : Connection) (f : File) (dest : Buffer)

/-- How the library carries out the calls of `cspi_read`. -/
def readImpl : Impl ReadCall ReadAns SysCall SysAns Lib
  | .initop, l => l.customInitop
  | .spikes, l => pure (decide (l.cache.srDsc = 2 ∧ l.cache.sr .cspiEnable ≠ 0), l)
  | .calloc, l => do
    let ok ← sys .alloc
    pure (ok, l)
  | .seek, l => l.seek (.con p) 0 .tr
  | .read own kind n, l => do
    let r ← sys (.read f (if own then .own else .client dest) kind n)
    pure (r, l)
  | .stamp pm, l => do
    let ts : Option Timestamp ← if pm then sys (.getPmTstamp f) else sys (.getDdTstamp f)
    match ts with
    | none => pure (false, l)
    | some ts => pure (true, l.setCon p { c with timestamp := ts })
  | .average, l => do
    let params ← sys .uninitEnv
    let ((rc, params), l) ← l.getenvparam .env params envAverageSum
    pure ((rc, params.val .averageSum), l)
  | .apply op atom n, l =>
    match tf op l.cache atom n with
    | none => hang
    | some members => do
      sys (.store dest (op.atoms members n))
      pure (members, l)
  | .put atoms, l => do
    sys (.store dest atoms)
    pure ((), l)
  | .free, l | .nread _, l => pure ((), l)

end

open Prog

variable {tf : Transform} {l l' : Lib} {p : ℕ} {c : Connection} {f : File} {dest : Buffer}
  {count : Word} {tr : List SysEvent} {res : ReadResult} {mode : Mode}

section

variable {α : Type}

theorem interp_read {own : Bool} {kind : AtomKind} {n : Word}
    {k : Option (Received n.toNat) → ReadProg α} :
    (ask (.read own kind n) >>= k).interp (readImpl tf p c f dest) l =
      sys (.read f (if own then .own else .client dest) kind n) >>= fun r =>
        (k r).interp (readImpl tf p c f dest) l := rfl

theorem interp_nread {n : Word} {k : Unit → ReadProg α} :
    (ask (.nread n) >>= k).interp (readImpl tf p c f dest) l =
      (k ()).interp (readImpl tf p c f dest) l := rfl

theorem interp_calloc {k : Bool → ReadProg α} :
    (ask .calloc >>= k).interp (readImpl tf p c f dest) l =
      sys .alloc >>= fun ok => (k ok).interp (readImpl tf p c f dest) l := by
  change readImpl tf p c f dest .calloc l >>= _ = _
  simp only [readImpl, bind_assoc, pure_bind]
  rfl

theorem interp_initop {k : ℤ → ReadProg α} :
    (ask .initop >>= k).interp (readImpl tf p c f dest) l =
      l.customInitop >>= fun r => (k r.1).interp (readImpl tf p c f dest) r.2 := rfl

theorem interp_seek {k : ℤ → ReadProg α} :
    (ask .seek >>= k).interp (readImpl tf p c f dest) l =
      l.seek (.con p) 0 .tr >>= fun r => (k r.1).interp (readImpl tf p c f dest) r.2 := rfl

theorem interp_average {k : ℤ × Word → ReadProg α} :
    (ask .average >>= k).interp (readImpl tf p c f dest) l = sys .uninitEnv >>= fun params =>
      l.getenvparam .env params envAverageSum >>= fun r =>
        (k (r.1.1, r.1.2.val .averageSum)).interp (readImpl tf p c f dest) r.2 := by
  change readImpl tf p c f dest .average l >>= _ = _
  simp only [readImpl, bind_assoc, pure_bind]
  rfl

theorem interp_stamp {pm : Bool} {k : Bool → ReadProg α} :
    (ask (.stamp pm) >>= k).interp (readImpl tf p c f dest) l =
      (if pm then sys (.getPmTstamp f) else sys (.getDdTstamp f)) >>= fun ts =>
        (match ts with
        | none => (k false).interp (readImpl tf p c f dest) l
        | some ts => (k true).interp (readImpl tf p c f dest)
            (l.setCon p { c with timestamp := ts })) := by
  change readImpl tf p c f dest (.stamp pm) l >>= _ = _
  cases pm <;>
  · simp only [readImpl, Bool.false_eq_true, if_true, if_false, bind_assoc]
    refine bind_congr fun ts => ?_
    cases ts <;> rfl

/-- With either buffer `read_adc` goes on in the same way. -/
theorem interp_buffer {k : Bool → ReadProg α} {g : Option Dest → LibProg (α × Lib)}
    (hnone : g none = (k false).interp (readImpl tf p c f dest) l)
    (hsome : g (some (if decide (c.mode ≠ .adc) then .own else .client dest)) =
      (k true).interp (readImpl tf p c f dest) l) :
    adcBuffer c dest >>= g =
      (readAdcBuffer c.mode >>= k).interp (readImpl tf p c f dest) l := by
  rw [adcBuffer, readAdcBuffer]
  by_cases hm : c.mode = .adc
  · rw [if_pos hm, if_pos hm, pure_bind, pure_bind, ← hsome, if_neg (by simp [hm])]
  · rw [if_neg hm, if_neg hm, bind_assoc, interp_calloc]
    refine bind_congr fun ok => ?_
    cases ok with
    | false => exact hnone
    | true =>
      rw [pure_bind, ← hsome, if_pos rfl, if_pos (by simp [hm])]

/-- An operator leaves the atoms that it is given the members of. -/
theorem interp_apply {op : Operator} {atom : ℕ → Atom} {n : ℕ} {k : (ℕ → List Word) → ReadProg α}
    {g : List Atom → LibProg (α × Lib)}
    (h : ∀ members, (k members).interp (readImpl tf p c f dest) l = g (op.atoms members n)) :
    applyOp tf op l.cache dest atom n >>= g =
      (ask (.apply op atom n) >>= k).interp (readImpl tf p c f dest) l := by
  change _ = readImpl tf p c f dest (.apply op atom n) l >>= _
  rw [applyOp, readImpl]
  cases tf op l.cache atom n with
  | none =>
    dsimp only
    refine congrArg (Prog.call _) (funext fun e => e.elim)
  | some members =>
    simp only [bind_assoc, pure_bind]
    exact bind_congr fun _ => (h members).symm

end

theorem readDd_eq (hm : c.mode = mode) (op : Option Operator) :
    l.readDd tf p c f dest count op =
      (readDd mode count op).interp (readImpl tf p c f dest) l := by
  subst hm
  rw [Lib.readDd, readDd, interp_read]
  refine bind_congr fun r => ?_
  cases r with
  | none => rfl
  | some r =>
    dsimp only
    rw [interp_stamp, Lib.ddRead, ddTstamp]
    have hmode : (if decide (c.mode ≠ .dd) = true then sys (.getPmTstamp f)
        else sys (.getDdTstamp f)) =
        if c.mode = .dd then sys (.getDdTstamp f) else sys (.getPmTstamp f) := by
      by_cases h : c.mode = .dd
      · simp [h]
      · simp [h]
    rw [hmode]
    refine bind_congr fun ts => ?_
    cases ts with
    | none => rfl
    | some ts =>
      dsimp only
      rw [if_pos rfl, interp_nread]
      cases op with
      | none => rfl
      | some op =>
        rw [interp_initop]
        refine bind_congr fun r' => ?_
        obtain ⟨rc', l'⟩ := r'
        dsimp only
        rw [interp_ite]
        split
        · rfl
        · exact interp_apply fun members => rfl

theorem interp_release {r : ReadResult} :
    (release mode r).interp (readImpl tf p c f dest) l = Pure.pure (r, l) := by
  unfold release
  split <;> rfl

theorem readAdc_eq (hm : c.mode = mode) (op : Option Operator) :
    l.readAdc tf c f dest count op =
      (readAdc mode count op).interp (readImpl tf p c f dest) l := by
  subst hm
  refine interp_buffer rfl ?_
  dsimp only
  rw [if_pos rfl, readAdcInto, interp_read]
  refine bind_congr fun r => ?_
  cases r with
  | none =>
    dsimp only
    rw [interp_release]
  | some r =>
    dsimp only
    rw [interp_nread]
    cases op with
    | none =>
      dsimp only
      rw [interp_release]
    | some op =>
      dsimp only
      rw [interp_initop]
      refine bind_congr fun r' => ?_
      obtain ⟨rc', l'⟩ := r'
      dsimp only
      rw [interp_ite]
      split
      · rfl
      · refine interp_apply fun members => ?_
        rw [interp_ite, interp_nread, interp_release, interp_release]
        split <;> rfl

theorem readAvg_eq : l.readAvg p c f dest = readAvg.interp (readImpl tf p c f dest) l := by
  rw [Lib.readAvg, readAvg, interp_nread, interp_seek]
  refine bind_congr fun r => ?_
  obtain ⟨rc, l⟩ := r
  dsimp only
  rw [interp_ite]
  split
  · rfl
  · rw [interp_read]
    refine bind_congr fun r => ?_
    cases r with
    | none => rfl
    | some r =>
      dsimp only
      rw [interp_stamp]
      refine bind_congr fun ts => ?_
      cases ts with
      | none => rfl
      | some ts =>
        dsimp only
        rw [if_pos rfl, interp_average]
        refine bind_congr fun params => bind_congr fun r => ?_
        dsimp only
        rw [interp_ite]
        split
        · rfl
        · rfl

theorem readEx_eq {op : Option Operator} (hc : l.heap p = some c) (hf : c.fd = some f)
    (hd : dest ≠ none) : l.readEx tf (.con p) dest count op =
      (readEx c.mode count op).interp (readImpl tf p c f dest) l := by
  simp only [Lib.readEx, Lib.isHcon, deref_eq hc, pure_bind, hd, if_false, hf, onFile, readEx]
  cases hm : c.mode with
  | sa => rfl
  | adc | adcCw | adcSp | adcSpRot => exact readAdc_eq hm op
  | average => exact readAvg_eq
  | dd | pm | unknown => exact readDd_eq hm op

/-- **The library reads by these calls.** -/
theorem read_eq (hc : l.heap p = some c) (hf : c.fd = some f) (hd : dest ≠ none) :
    l.read tf (.con p) dest count = (cspiRead c.mode count).interp (readImpl tf p c f dest) l := by
  have hop : l.customGetdefaultop c.mode =
      (customGetdefaultop c.mode).interp (readImpl tf p c f dest) l := by
    cases c.mode with
    | dd =>
      rw [Lib.customGetdefaultop, customGetdefaultop, interp_initop]
      refine bind_congr fun r => ?_
      change _ = Pure.pure (some (if decide (r.2.cache.srDsc = 2 ∧ r.2.cache.sr .cspiEnable ≠ 0) =
        true then _ else _), r.2)
      simp only [decide_eq_true_eq]
    | _ => rfl
  rw [cspiRead, interp_bind, ← hop, Lib.read, deref_eq hc, pure_bind]
  refine bind_congr_of_ensures customGetdefaultop_ensures fun r hr => ?_
  exact readEx_eq (hr.heap ▸ hc) hf hd

/-! ## The runs -/

/-- The runs of `read_dd` with an operator. -/
inductive DdRead (mode : Mode) (count : Word) (op : Operator) : List ReadEvent → ReadResult → Prop
  | refused : DdRead mode count op [⟨.read false .dd (nbytes count .dd), none⟩] ⟨cspiESystem, 0, []⟩
  | unstamped (r : Received (nbytes count .dd).toNat) :
    DdRead mode count op [⟨.read false .dd (nbytes count .dd), some r⟩,
      ⟨.stamp (mode ≠ .dd), false⟩] ⟨cspiESystem, 0, r.whole .dd⟩
  | stale (r : Received (nbytes count .dd).toNat) (rc : ℤ) (h : rc ≠ cspiOk) :
    DdRead mode count op [⟨.read false .dd (nbytes count .dd), some r⟩,
      ⟨.stamp (mode ≠ .dd), true⟩, ⟨.nread (BitVec.ofNat 32 (r.bytes / AtomKind.dd.size)), ()⟩,
      ⟨.initop, rc⟩] ⟨rc, BitVec.ofNat 32 (r.bytes / AtomKind.dd.size), r.whole .dd⟩
  | done (r : Received (nbytes count .dd).toNat) (members : ℕ → List Word) :
    DdRead mode count op [⟨.read false .dd (nbytes count .dd), some r⟩,
      ⟨.stamp (mode ≠ .dd), true⟩, ⟨.nread (BitVec.ofNat 32 (r.bytes / AtomKind.dd.size)), ()⟩,
      ⟨.initop, cspiOk⟩, ⟨.apply op r.atom (r.bytes / AtomKind.dd.size), members⟩]
      ⟨if r.bytes / AtomKind.dd.size ≠ count.toNat then cspiWIncomplete else cspiOk,
        BitVec.ofNat 32 (r.bytes / AtomKind.dd.size), op.atoms members (r.bytes / AtomKind.dd.size)⟩

theorem readDd_runs {op : Operator} {t : List ReadEvent}
    (h : (readDd mode count (some op)).Runs t res) : DdRead mode count op t res := by
  obtain ⟨r, t, rfl, h⟩ := h
  cases r with
  | none =>
    obtain ⟨rfl, rfl⟩ := h
    exact .refused
  | some r =>
    obtain ⟨ok, t, rfl, h⟩ := h
    cases ok with
    | false =>
      obtain ⟨rfl, rfl⟩ := h
      exact .unstamped r
    | true =>
      obtain ⟨⟨⟩, t, rfl, rc, t, rfl, h⟩ := h
      by_cases hrc : rc = cspiOk
      · subst hrc
        obtain ⟨members, t, rfl, rfl, rfl⟩ := h
        exact .done r members
      · replace h : (if rc ≠ cspiOk then _ else _ : ReadProg ReadResult).Runs t res := h
        rw [if_pos hrc] at h
        obtain ⟨rfl, rfl⟩ := h
        exact .stale r rc hrc

/-- The runs of `read_adc` in the plain mode. -/
inductive AdcRead (count : Word) : List ReadEvent → ReadResult → Prop
  | refused : AdcRead count [⟨.read false .adc (nbytes count .adc), none⟩] ⟨cspiESystem, 0, []⟩
  | done (r : Received (nbytes count .adc).toNat) :
    AdcRead count [⟨.read false .adc (nbytes count .adc), some r⟩,
      ⟨.nread (BitVec.ofNat 32 (r.bytes / AtomKind.adc.size)), ()⟩]
      ⟨if r.bytes ≠ (nbytes count .adc).toNat then cspiWIncomplete else cspiOk,
        BitVec.ofNat 32 (r.bytes / AtomKind.adc.size), r.whole .adc⟩

/-- The runs of `read_adc` with an operator: the atoms go through a buffer of its own. In the single
pass modes it assigns `*nread` once more. -/
inductive AdcTransformed (mode : Mode) (count : Word) (op : Operator) :
    List ReadEvent → ReadResult → Prop
  | full : AdcTransformed mode count op [⟨.calloc, false⟩] ⟨cspiEMalloc, 0, []⟩
  | refused : AdcTransformed mode count op
    [⟨.calloc, true⟩, ⟨.read true .adc (nbytes count .adc), none⟩, ⟨.free, ()⟩]
      ⟨cspiESystem, 0, []⟩
  | stale (r : Received (nbytes count .adc).toNat) (rc : ℤ) (h : rc ≠ cspiOk) :
    AdcTransformed mode count op [⟨.calloc, true⟩,
      ⟨.read true .adc (nbytes count .adc), some r⟩,
      ⟨.nread (BitVec.ofNat 32 (r.bytes / AtomKind.adc.size)), ()⟩, ⟨.initop, rc⟩]
      ⟨rc, BitVec.ofNat 32 (r.bytes / AtomKind.adc.size), []⟩
  | many (r : Received (nbytes count .adc).toNat) (members : ℕ → List Word)
    (h : ¬(mode = .adcSp ∨ mode = .adcSpRot)) :
    AdcTransformed mode count op [⟨.calloc, true⟩,
      ⟨.read true .adc (nbytes count .adc), some r⟩,
      ⟨.nread (BitVec.ofNat 32 (r.bytes / AtomKind.adc.size)), ()⟩, ⟨.initop, cspiOk⟩,
      ⟨.apply op r.atom (r.bytes / AtomKind.adc.size), members⟩, ⟨.free, ()⟩]
      ⟨cspiOk, BitVec.ofNat 32 (r.bytes / AtomKind.adc.size),
        op.atoms members (r.bytes / AtomKind.adc.size)⟩
  | one (r : Received (nbytes count .adc).toNat) (members : ℕ → List Word)
    (h : mode = .adcSp ∨ mode = .adcSpRot) :
    AdcTransformed mode count op [⟨.calloc, true⟩,
      ⟨.read true .adc (nbytes count .adc), some r⟩,
      ⟨.nread (BitVec.ofNat 32 (r.bytes / AtomKind.adc.size)), ()⟩, ⟨.initop, cspiOk⟩,
      ⟨.apply op r.atom (r.bytes / AtomKind.adc.size), members⟩, ⟨.nread 1, ()⟩, ⟨.free, ()⟩]
      ⟨cspiOk, 1, op.atoms members (r.bytes / AtomKind.adc.size)⟩

/-- The runs of `read_avg`. -/
inductive AvgRead : List ReadEvent → ReadResult → Prop
  | unsought (rc : ℤ) (h : rc ≠ cspiOk) : AvgRead [⟨.nread 0, ()⟩, ⟨.seek, rc⟩] ⟨rc, 0, []⟩
  | refused : AvgRead [⟨.nread 0, ()⟩, ⟨.seek, cspiOk⟩,
      ⟨.read true .dd (BitVec.ofNat 32 AtomKind.dd.size), none⟩] ⟨cspiESystem, 0, []⟩
  | unstamped (r : Received (BitVec.ofNat 32 AtomKind.dd.size).toNat) :
    AvgRead [⟨.nread 0, ()⟩, ⟨.seek, cspiOk⟩,
      ⟨.read true .dd (BitVec.ofNat 32 AtomKind.dd.size), some r⟩, ⟨.stamp false, false⟩]
      ⟨cspiESystem, 0, []⟩
  | unknown (r : Received (BitVec.ofNat 32 AtomKind.dd.size).toNat) (rc : ℤ) (sum : Word)
    (h : rc ≠ cspiOk) :
    AvgRead [⟨.nread 0, ()⟩, ⟨.seek, cspiOk⟩,
      ⟨.read true .dd (BitVec.ofNat 32 AtomKind.dd.size), some r⟩, ⟨.stamp false, true⟩,
      ⟨.average, (rc, sum)⟩] ⟨rc, 0, []⟩
  | done (r : Received (BitVec.ofNat 32 AtomKind.dd.size).toNat) (sum : Word) :
    AvgRead [⟨.nread 0, ()⟩, ⟨.seek, cspiOk⟩,
      ⟨.read true .dd (BitVec.ofNat 32 AtomKind.dd.size), some r⟩, ⟨.stamp false, true⟩,
      ⟨.average, (cspiOk, sum)⟩, ⟨.nread 1, ()⟩, ⟨.put [⟨.average, [sum]⟩], ()⟩]
      ⟨cspiOk, 1, [⟨.average, [sum]⟩]⟩

theorem readAdc_runs {t : List ReadEvent} (h : (readAdc .adc count none).Runs t res) :
    AdcRead count t res := by
  obtain ⟨r, t, rfl, h⟩ := h
  cases r with
  | none =>
    obtain ⟨rfl, rfl⟩ := h
    exact .refused
  | some r =>
    obtain ⟨⟨⟩, t, rfl, rfl, rfl⟩ := h
    exact .done r

theorem release_runs {r : ReadResult} {t : List ReadEvent} (hm : mode ≠ .adc)
    (h : (release mode r).Runs t res) : t = [⟨.free, ()⟩] ∧ res = r := by
  rw [release, if_neg hm] at h
  obtain ⟨⟨⟩, t, rfl, rfl, rfl⟩ := h
  exact ⟨rfl, rfl⟩

theorem readAdc_transformed {op : Operator} {t : List ReadEvent} (hm : mode ≠ .adc)
    (h : (readAdc mode count (some op)).Runs t res) : AdcTransformed mode count op t res := by
  have hown : decide (mode ≠ .adc) = true := decide_eq_true hm
  rw [readAdc, readAdcBuffer, if_neg hm] at h
  obtain ⟨ok, t, rfl, h⟩ := h
  cases ok with
  | false =>
    obtain ⟨rfl, rfl⟩ := h
    exact .full
  | true =>
    replace h : (readAdcInto mode count (some op)).Runs t res := h
    rw [readAdcInto, hown] at h
    obtain ⟨r, t, rfl, h⟩ := h
    cases r with
    | none =>
      obtain ⟨rfl, rfl⟩ := release_runs hm h
      exact .refused
    | some r =>
      obtain ⟨⟨⟩, t, rfl, rc, t, rfl, h⟩ := h
      by_cases hrc : rc = cspiOk
      · subst hrc
        obtain ⟨members, t, rfl, h⟩ := h
        by_cases hsp : mode = .adcSp ∨ mode = .adcSpRot
        · replace h : (if mode = .adcSp ∨ mode = .adcSpRot then _ else _ :
              ReadProg ReadResult).Runs t res := h
          rw [if_pos hsp] at h
          obtain ⟨⟨⟩, t, rfl, h⟩ := h
          obtain ⟨rfl, rfl⟩ := release_runs hm h
          exact .one r members hsp
        · replace h : (if mode = .adcSp ∨ mode = .adcSpRot then _ else _ :
              ReadProg ReadResult).Runs t res := h
          rw [if_neg hsp] at h
          obtain ⟨rfl, rfl⟩ := release_runs hm h
          exact .many r members hsp
      · replace h : (if rc ≠ cspiOk then _ else _ : ReadProg ReadResult).Runs t res := h
        rw [if_pos hrc, if_neg hm] at h
        obtain ⟨rfl, rfl⟩ := h
        exact .stale r rc hrc

theorem readAvg_runs {t : List ReadEvent} (h : readAvg.Runs t res) : AvgRead t res := by
  obtain ⟨⟨⟩, t, rfl, rc, t, rfl, h⟩ := h
  by_cases hrc : rc = cspiOk
  · subst hrc
    obtain ⟨r, t, rfl, h⟩ := h
    cases r with
    | none =>
      obtain ⟨rfl, rfl⟩ := h
      exact .refused
    | some r =>
      obtain ⟨ok, t, rfl, h⟩ := h
      cases ok with
      | false =>
        obtain ⟨rfl, rfl⟩ := h
        exact .unstamped r
      | true =>
        obtain ⟨⟨rc, sum⟩, t, rfl, h⟩ := h
        by_cases hrc : rc = cspiOk
        · subst hrc
          obtain ⟨⟨⟩, t, rfl, ⟨⟩, t, rfl, rfl, rfl⟩ := h
          exact .done r sum
        · replace h : (if rc ≠ cspiOk then _ else _ : ReadProg ReadResult).Runs t res := h
          rw [if_pos hrc] at h
          obtain ⟨rfl, rfl⟩ := h
          exact .unknown r rc sum hrc
  · replace h : (if rc ≠ cspiOk then _ else _ : ReadProg ReadResult).Runs t res := h
    rw [if_pos hrc] at h
    obtain ⟨rfl, rfl⟩ := h
    exact .unsought rc hrc

end LiberaDaq.Cspi
