import LiberaDaq.Cspi.Connections
import LiberaDaq.Interaction.Layer

/-!
# Reading

`cspi_read` and `cspi_get`: the device fills a buffer with atoms as they come from the instrument,
and the operator of the mode transforms them. What an operator computes is a parameter here; how
many atoms of which kind it leaves in the buffer is not.

The last part puts the calls together: the library as an implementation of its interface.
-/

namespace LiberaDaq.Cspi

open LiberaDaq.Interaction

/-! ## Operators -/

/-- The operators of `custom_getdefaultop`. -/
inductive Operator
  | transformDd | transformDdRemoveSpikes | transformAdcCw | transformAdcSp | transformAdcSpRot
  deriving DecidableEq, Repr

/-- The kind of atoms that an operator leaves. -/
def Operator.kind : Operator → AtomKind
  | .transformDd | .transformDdRemoveSpikes => .dd
  | .transformAdcCw => .adcCw
  | .transformAdcSp | .transformAdcSpRot => .adcSp

/-- The number of atoms that an operator leaves for a count. Two of them begin with an atom that
they do not count. -/
def Operator.extent : Operator → ℕ → ℕ
  | .transformDd, n => n
  | .transformDdRemoveSpikes, n | .transformAdcCw, n => max 1 n
  | .transformAdcSp, _ | .transformAdcSpRot, _ => 1

/-- The members of the atoms that an operator leaves, from the cache, the atoms it is given and
their count; `none` when its loops do not end. -/
abbrev Transform := Operator → Cache → (ℕ → Atom) → ℕ → Option (ℕ → List Word)

/-- The atoms that an operator leaves. -/
def Operator.atoms (op : Operator) (members : ℕ → List Word) (n : ℕ) : List Atom :=
  (List.range (op.extent n)).map fun i => ⟨op.kind, members i⟩

/-! ## The cache -/

/-- The lock of the cache's mutex. -/
def Lib.lockCache (l : Lib) : LibProg Lib :=
  if l.cacheMutex then hang else pure { l with cacheMutex := true }

/-- The cache with the parameters of the structure. -/
def Cache.take (c : Cache) (ep : EnvParams) : Cache :=
  { c with
    sp := fun m => ep.val (.sp m)
    srDsc := ep.val .dsc
    sr := fun m => ep.val (.sr m)
    frequency := ep.pllStatus.frequency
    harmonic := ep.pllStatus.harmonic
    frev := ep.frev }

/-- The cache with the calibration of the structure. -/
def Cache.takeCalibration (c : Cache) (ep : EnvParams) : Cache :=
  { c with
    kx := ep.val .kx, ky := ep.val .ky
    xoffset := ep.val .xoffset, yoffset := ep.val .yoffset, qoffset := ep.val .qoffset }

/-- `ebpp_update_cache`. Two of its returns leave the cache's mutex locked. -/
def Lib.ebppUpdateCache (l : Lib) : LibProg (ℤ × Lib) := do
  let ep ← sys .uninitEnv
  let (rc, ep) ← customGetenvparam l.env.fd cacheMask ep
  if rc = cspiOk then do
    let l ← l.lockCache
    let l := { l with cache := l.cache.takeCalibration ep }
    let x ← onFile l.env.fd none fun f => sys (.getCfg f .bcdXoffset)
    match x with
    | none => pure (cspiESystem, l)
    | some x => do
      let l := { l with cache := { l.cache with xoffset := l.cache.xoffset + x } }
      let y ← onFile l.env.fd none fun f => sys (.getCfg f .bcdYoffset)
      match y with
      | none => pure (cspiESystem, l)
      | some y =>
        let cache := { l.cache with yoffset := l.cache.yoffset + y }
        pure (rc, { l with cache := cache.take ep, cacheMutex := false })
  else pure (rc, l)

/-- `custom_initop`. -/
def Lib.customInitop (l : Lib) : LibProg (ℤ × Lib) :=
  if l.dirty then do
    let l ← { l with dirty := false }.lock
    let (rc, l) ← l.ebppUpdateCache
    pure (rc, l.unlock)
  else pure (cspiOk, l)

/-- `custom_getdefaultop`, for a connection in a mode. -/
def Lib.customGetdefaultop (l : Lib) (mode : Mode) : LibProg (Option Operator × Lib) :=
  match mode with
  | .dd => do
    let (_, l) ← l.customInitop
    let spikes := l.cache.srDsc = 2 ∧ l.cache.sr .cspiEnable ≠ 0
    pure (some (if spikes then .transformDdRemoveSpikes else .transformDd), l)
  | .pm => pure (some .transformDd, l)
  | .adcCw => pure (some .transformAdcCw, l)
  | .adcSp => pure (some .transformAdcSp, l)
  | .adcSpRot => pure (some .transformAdcSpRot, l)
  | _ => pure (none, l)

/-! ## Reading -/

variable (tf : Transform)

/-- An operator at work: the atoms it leaves in the buffer of the client. -/
def applyOp (op : Operator) (cache : Cache) (dest : Buffer) (atom : ℕ → Atom) (n : ℕ) :
    LibProg (List Atom) :=
  match tf op cache atom n with
  | none => hang
  | some members => do
    sys (.store dest (op.atoms members n))
    pure (op.atoms members n)

/-- The whole atoms of a kind that were received. -/
def Received.whole {n : ℕ} (r : Received n) (kind : AtomKind) : List Atom :=
  (List.range (r.bytes / kind.size)).map r.atom

/-- A number of atoms as bytes, in the arithmetic of `size_t`. -/
def nbytes (count : Word) (kind : AtomKind) : Word := count * BitVec.ofNat 32 kind.size

/-- The time stamp of the data that was read, in `read_dd`. -/
def ddTstamp (c : Connection) (f : File) : LibProg (Option Timestamp) :=
  if c.mode = .dd then sys (.getDdTstamp f) else sys (.getPmTstamp f)

/-- `read_dd`, from the time stamp on. -/
def Lib.ddRead (l : Lib) (p : ℕ) (c : Connection) (f : File) (dest : Buffer) (count : Word)
    {n : ℕ} (r : Received n) (op : Option Operator) : LibProg (ReadResult × Lib) := do
  match ← ddTstamp c f with
  | none => pure (⟨cspiESystem, 0, r.whole .dd⟩, l)
  | some ts => do
    let l := l.setCon p { c with timestamp := ts }
    let nb := r.bytes / AtomKind.dd.size
    let rc : ℤ := if nb ≠ count.toNat then cspiWIncomplete else cspiOk
    match op with
    | none => pure (⟨rc, BitVec.ofNat 32 nb, r.whole .dd⟩, l)
    | some op => do
      let (rc', l) ← l.customInitop
      if rc' ≠ cspiOk then pure (⟨rc', BitVec.ofNat 32 nb, r.whole .dd⟩, l)
      else do
        let atoms ← applyOp tf op l.cache dest r.atom nb
        pure (⟨rc, BitVec.ofNat 32 nb, atoms⟩, l)

/-- `read_dd`. -/
def Lib.readDd (l : Lib) (p : ℕ) (c : Connection) (f : File) (dest : Buffer) (count : Word)
    (op : Option Operator) : LibProg (ReadResult × Lib) := do
  let r ← sys (.read f (.client dest) .dd (nbytes count .dd))
  match r with
  | none => pure (⟨cspiESystem, 0, []⟩, l)
  | some r => l.ddRead tf p c f dest count r op

/-- The buffer that `read_adc` reads into: that of the client in the plain mode alone. -/
def adcBuffer (c : Connection) (dest : Buffer) : LibProg (Option Dest) :=
  if c.mode = .adc then pure (some (.client dest))
  else do
    let ok ← sys .alloc
    pure (if ok then some .own else none)

/-- `read_adc`. -/
def Lib.readAdc (l : Lib) (c : Connection) (f : File) (dest : Buffer) (count : Word)
    (op : Option Operator) : LibProg (ReadResult × Lib) := do
  match ← adcBuffer c dest with
  | none => pure (⟨cspiEMalloc, 0, []⟩, l)
  | some place => do
    let r ← sys (.read f place .adc (nbytes count .adc))
    match r with
    | none => pure (⟨cspiESystem, 0, []⟩, l)
    | some r => do
      let data := if c.mode = .adc then r.whole .adc else []
      let rc : ℤ := if r.bytes ≠ (nbytes count .adc).toNat then cspiWIncomplete else cspiOk
      let eread := r.bytes / AtomKind.adc.size
      match op with
      | none => pure (⟨rc, BitVec.ofNat 32 eread, data⟩, l)
      | some op => do
        let (rc', l) ← l.customInitop
        if rc' ≠ cspiOk then pure (⟨rc', BitVec.ofNat 32 eread, data⟩, l)
        else do
          let atoms ← applyOp tf op l.cache dest r.atom eread
          let nread := if c.mode = .adcSp ∨ c.mode = .adcSpRot then 1 else eread
          pure (⟨rc', BitVec.ofNat 32 nread, atoms⟩, l)

/-- `read_avg`. Its mode has no operator. -/
def Lib.readAvg (l : Lib) (p : ℕ) (c : Connection) (f : File) (dest : Buffer) :
    LibProg (ReadResult × Lib) := do
  let (rc, l) ← l.seek (.con p) 0 .tr
  if rc ≠ cspiOk then pure (⟨rc, 0, []⟩, l)
  else do
    let r ← sys (.read f .own .dd (BitVec.ofNat 32 AtomKind.dd.size))
    match r with
    | none => pure (⟨cspiESystem, 0, []⟩, l)
    | some _ => do
      let ts ← sys (.getDdTstamp f)
      match ts with
      | none => pure (⟨cspiESystem, 0, []⟩, l)
      | some ts => do
        let l := l.setCon p { c with timestamp := ts }
        let params ← sys .uninitEnv
        let ((rc, params), l) ← l.getenvparam .env params envAverageSum
        if rc ≠ cspiOk then pure (⟨rc, 0, []⟩, l)
        else do
          let atoms : List Atom := [⟨.average, [params.val .averageSum]⟩]
          sys (.store dest atoms)
          pure (⟨rc, 1, atoms⟩, l)

/-- `cspi_read_ex`. -/
def Lib.readEx (l : Lib) (h : Handle) (dest : Buffer) (count : Word) (op : Option Operator) :
    LibProg (ReadResult × Lib) := do
  match ← l.isHcon h with
  | none => pure (⟨cspiEInvalidHandle, 0, []⟩, l)
  | some (p, c) =>
    if dest = none then pure (⟨cspiEInvalidParam, 0, []⟩, l)
    else onFile c.fd (⟨cspiESequence, 0, []⟩, l) fun f =>
      match c.mode with
      | .sa => pure (⟨cspiEIllegalCall, 0, []⟩, l)
      | .adc | .adcCw | .adcSp | .adcSpRot => l.readAdc tf c f dest count op
      | .average => l.readAvg p c f dest
      | .dd | .pm | .unknown => l.readDd tf p c f dest count op

/-- `cspi_read`. It looks the mode up through the handle before it tests the handle. -/
def Lib.read (l : Lib) (h : Handle) (dest : Buffer) (count : Word) :
    LibProg (ReadResult × Lib) := do
  match h with
  | .null | .env => fault
  | .con p => do
    let c ← l.deref p
    let (op, l) ← l.customGetdefaultop c.mode
    l.readEx tf h dest count op

/-- `cspi_get`. The mode it needs has no operator. -/
def Lib.get (l : Lib) (h : Handle) (dest : Buffer) : LibProg ((ℤ × List Atom) × Lib) := do
  match ← l.isHcon h with
  | none => pure ((cspiEInvalidHandle, []), l)
  | some (_, c) =>
    if dest = none then pure ((cspiEInvalidParam, []), l)
    else onFile c.fd ((cspiESequence, []), l) fun f =>
      if c.mode ≠ .sa then pure ((cspiEIllegalCall, []), l)
      else do
        let r ← sys (.read f (.client dest) .sa (BitVec.ofNat 32 AtomKind.sa.size))
        match r with
        | none => pure ((cspiESystem, []), l)
        | some r => pure ((cspiOk, r.whole .sa), l)

/-! ## The library -/

/-- The library as an implementation of its interface. -/
def cspiImpl : Impl CspiCall CspiAns SysCall SysAns Lib
  | .setlibparam superuser, l => l.setlibparam superuser
  | .allochandle type h, l => l.allochandle type h
  | .freehandle type h, l => l.freehandle type h
  | .setenvparam h p flags, l => l.setenvparam h p flags
  | .getenvparam h p flags, l => l.getenvparam h p flags
  | .setconparam h p flags, l => l.setconparam h p flags
  | .connect h, l => l.connect h
  | .disconnect h, l => l.disconnect h
  | .seek h offset origin, l => l.seek h offset origin
  | .read h dest count, l => l.read tf h dest count
  | .get h dest, l => l.get h dest
  | .gettimestamp h, l => l.gettimestamp h
  | .settime _ ts flags, l => do
    let rc ← settime ts flags
    pure (rc, l)

end LiberaDaq.Cspi
