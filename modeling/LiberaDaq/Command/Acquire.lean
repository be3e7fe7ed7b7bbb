import LiberaDaq.Driver.Iop

/-!
# The acquire command

`CmdLiberaAcquire`, a batch command of the control unit: `setHandler` reads a request, sizes the
output attribute and starts the acquisition, and the scheduler then calls `acquireHandler` until
the command is in its end state. The command talks to the driver through `iop` and `read`, to the
attribute cache of the framework and to the clock.
-/

namespace LiberaDaq

open Cspi Interaction

/-! ## Requests and the output dataset -/

/-- The keys of a request, each with its `int32` when the request has it. -/
structure Request where
  enable : Option Word := none
  duration : Option Word := none
  mode : Option Word := none
  samples : Option Word := none
  offset : Option Word := none
  loops : Option Word := none
  deriving DecidableEq, Repr

/-- The vector attributes of the output dataset that the command names. `ADC_AVG` is not one of
those the control unit declares. -/
inductive Attr
  | dd | sa | adcCw | adcSp | adcAvg | avg
  deriving DecidableEq, Repr

/-- The name of an attribute. -/
def Attr.name : Attr → String
  | .dd => "DD"
  | .sa => "SA"
  | .adcCw => "ADC_CW"
  | .adcSp => "ADC_SP"
  | .adcAvg => "ADC_AVG"
  | .avg => "AVG"

/-- The atoms an attribute is declared for: `libera_dd_t` and so on. -/
def Attr.kind : Attr → AtomKind
  | .dd => .dd
  | .sa => .sa
  | .adcCw => .adcCw
  | .adcSp => .adcSp
  | .adcAvg | .avg => .average

/-- The scalars that are published from the first atom of a read. -/
structure Position where
  va : Word := 0
  vb : Word := 0
  vc : Word := 0
  vd : Word := 0
  x : Word := 0
  y : Word := 0
  q : Word := 0
  sum : Word := 0
  q1 : Word := 0
  q2 : Word := 0
  deriving DecidableEq, Repr

/-- The output attributes of the command. `size` is the allocated size of a vector attribute in
bytes, `content` the atoms at its address. -/
structure Dataset where
  mode : Word
  samples : Word
  acquisition : BitVec 64
  mt : BitVec 64
  st : BitVec 64
  error : Word
  position : Position
  size : Attr → ℕ
  content : Attr → ℕ → Atom

/-- The running property of a command: `BC_EXEC`, `BC_NORMAL` and `BC_END_RUNNIG_PROPERTY`. -/
inductive Running
  | exec | normal | ended
  deriving DecidableEq, Repr

/-- `CmdLiberaAcquire` with the attributes that its pointers refer to. -/
structure AcquireCmd where
  mode : Word
  samples : Word
  loops : Word
  offset : Word
  acquireDuration : Word
  startAcquire : BitVec 64
  out : Dataset
  running : Running

/-- How a handler ends: it returns, or throws a `CException` with a code and a message. An
exception of the framework itself passes through. -/
inductive Exit
  | return
  | throw (code : ℤ) (message : String)
  | framework
  deriving DecidableEq, Repr

/-! ## Errors -/

def liberaErrorReading : Word := 0x1
def liberaErrorStopAcquire : Word := 0x4
def liberaErrorSwconfig : Word := 0x8
def liberaErrorAllocateDataset : Word := 0x10

/-- `*perr |= e`. -/
def AcquireCmd.raise (c : AcquireCmd) (e : Word) : AcquireCmd :=
  { c with out := { c.out with error := c.out.error ||| e } }

/-- `*pmode = m`. -/
def AcquireCmd.publishMode (c : AcquireCmd) (m : Word) : AcquireCmd :=
  { c with out := { c.out with mode := m } }

/-- `BC_END_RUNNIG_PROPERTY`. -/
def AcquireCmd.end (c : AcquireCmd) : AcquireCmd := { c with running := .ended }

section

variable (c : AcquireCmd) (w : Word)

@[simp] theorem AcquireCmd.raise_running : (c.raise w).running = c.running := rfl
@[simp] theorem AcquireCmd.raise_error : (c.raise w).out.error = c.out.error ||| w := rfl
@[simp] theorem AcquireCmd.raise_mode : (c.raise w).out.mode = c.out.mode := rfl
@[simp] theorem AcquireCmd.raise_acquisition :
    (c.raise w).out.acquisition = c.out.acquisition := rfl
@[simp] theorem AcquireCmd.raise_size : (c.raise w).out.size = c.out.size := rfl
@[simp] theorem AcquireCmd.publishMode_running : (c.publishMode w).running = c.running := rfl
@[simp] theorem AcquireCmd.publishMode_error : (c.publishMode w).out.error = c.out.error := rfl
@[simp] theorem AcquireCmd.publishMode_mode : (c.publishMode w).out.mode = w := rfl
@[simp] theorem AcquireCmd.publishMode_acquisition :
    (c.publishMode w).out.acquisition = c.out.acquisition := rfl
@[simp] theorem AcquireCmd.publishMode_size : (c.publishMode w).out.size = c.out.size := rfl
@[simp] theorem AcquireCmd.end_running : c.end.running = .ended := rfl
@[simp] theorem AcquireCmd.end_out : c.end.out = c.out := rfl

end

/-! ## The calls of the command -/

/-- A call of the driver, through its accessor. -/
inductive DriverCall
  | iop (r : IopRequest)
  | read (buffer : Buffer) (addr : ℤ) (bcount : Word)

/-- What a call of the driver gives back. -/
abbrev DriverAns : DriverCall → Type
  | .iop _ => ℤ × IopOut
  | .read _ _ _ => ReadOutcome

/-- A call of the framework or of the clock. -/
inductive FrameCall
  /-- `driverAccessorsErogator->getAccessoInstanceByIndex(0)`: whether there is one. -/
  | getAccessor
  /-- `setOutputAttributeNewSize`: `false` when the cache throws. -/
  | resize (a : Attr) (size : ℕ)
  /-- `getRWPtr`: whether the pointer is not null. -/
  | getRWPtr (a : Attr)
  /-- The milliseconds of the time of day. -/
  | now
  /-- An access through a null pointer. -/
  | fault

/-- What such a call gives back. -/
abbrev FrameAns : FrameCall → Type
  | .getAccessor => Bool
  | .resize _ _ => Bool
  | .getRWPtr _ => Bool
  | .now => BitVec 64
  | .fault => Empty

/-- The calls of the command. -/
abbrev CmdCall := DriverCall ⊕ FrameCall

abbrev CmdAns : CmdCall → Type := Answers DriverAns FrameAns

/-- The programs of the command. -/
abbrev CmdProg := Prog CmdCall CmdAns

/-- A call of the driver. -/
abbrev driver (c : DriverCall) : CmdProg (DriverAns c) :=
  Prog.perform (Sum.inl c : CmdCall)

/-- A call of the framework. -/
abbrev frame (c : FrameCall) : CmdProg (FrameAns c) :=
  Prog.perform (Sum.inr c : CmdCall)

/-! ## setHandler -/

/-- The vector attributes that `setHandler` empties, in this order. -/
def emptied : List Attr := [.sa, .dd, .adcCw, .adcSp]

/-- `setOutputAttributeNewSize`, on the dataset. -/
def Dataset.resize (o : Dataset) (a : Attr) (size : ℕ) : Dataset :=
  { o with size := Function.update o.size a size }

/-- `setOutputAttributeNewSize` on each of the attributes; `false` when the cache throws. -/
def resizeAll (size : ℕ) : List Attr → AcquireCmd → CmdProg (Bool × AcquireCmd)
  | [], c => pure (true, c)
  | a :: as, c => do
    if ← frame (.resize a size) then resizeAll size as { c with out := c.out.resize a size }
    else pure (false, c)

/-- The attribute that the chain of `setHandler` over the mode bits sizes: the first match. -/
def chosenAttr (w : Word) : Option Attr :=
  if hits w liberaIopModeDd then some .dd
  else if hits w liberaIopModeSa then some .sa
  else if hits w liberaIopModeContinuous then some .adcCw
  else if hits w liberaIopModeSinglepass then some .adcSp
  else if hits w liberaIopModeAvg then some .adcAvg
  else none

/-- `tsamples`: the samples of the request up to `64000`, or `-1`. -/
def Request.tsamples (r : Request) : Word :=
  match r.samples with
  | some v => if v.slt 64000 then v else 64000
  | none => -1

/-- `toffset`: the offset of the request, or `-1`. -/
def Request.toffset (r : Request) : Word := r.offset.getD (-1)

/-- The branch of the chain for an attribute; `false` when the cache throws. -/
def AcquireCmd.sizeAttr (c : AcquireCmd) (a : Attr) (tsamples : Word) :
    CmdProg (Bool × AcquireCmd) :=
  if (0 : Word).slt tsamples then do
    let (ok, c) ← resizeAll (tsamples * BitVec.ofNat 32 a.kind.size).toNat [a] c
    if ok then do
      let _ ← driver (.iop (.setSamples tsamples))
      pure (true, { c with samples := tsamples })
    else pure (false, c)
  else pure (true, c)

/-- `setHandler` after the start of the acquisition. -/
def AcquireCmd.started (c : AcquireCmd) (tmode : Word) : CmdProg (Exit × AcquireCmd) := do
  let out := { c.out with mode := tmode, samples := c.samples, acquisition := 0 }
  let t ← frame .now
  pure (.return,
    { c with mode := tmode, out := out, startAcquire := t, running := .normal })

/-- The part of `setHandler` for the offset. -/
def AcquireCmd.seek (c : AcquireCmd) (r : Request) : CmdProg AcquireCmd :=
  if (0 : Word).slt r.toffset then do
    let _ ← driver (.iop (.setOffset r.toffset))
    pure { c with offset := r.toffset }
  else pure c

/-- `setHandler` from the offset on. -/
def AcquireCmd.start (c : AcquireCmd) (r : Request) (tmode : Word) :
    CmdProg (Exit × AcquireCmd) := do
  let c ← c.seek r
  let x ← driver (.iop (.acquire tmode))
  if x.1 ≠ 0 then pure (.throw x.1 "Cannot start acquire", c.end)
  else c.started tmode

/-- `setHandler` on the mode `tmode` of the request. -/
def AcquireCmd.configure (c : AcquireCmd) (r : Request) (tmode : Word) :
    CmdProg (Exit × AcquireCmd) := do
  -- the member `mode` is `0` here, so this bit is never found
  let c := if hits c.mode liberaIopModeSa then { c with loops := -1 } else c
  let c := { c with loops := r.loops.getD c.loops }
  let (ok, c) ← resizeAll 0 emptied c
  if ok then
    match chosenAttr tmode with
    | none => pure (.throw 1 "Unsupported mode", (c.raise liberaErrorSwconfig).end)
    | some a => do
      let (ok, c) ← c.sizeAttr a r.tsamples
      if ok then c.start r tmode else pure (.framework, c)
  else pure (.framework, c)

/-- The members after the first assignments of `setHandler` and after `CmdLiberaDefault`'s. -/
def AcquireCmd.reset (c : AcquireCmd) : AcquireCmd :=
  { c with
    mode := 0, offset := 0, loops := 1, acquireDuration := 0
    out := { c.out with error := 0 }, running := .normal }

/-- `setHandler` after the STOP. -/
def AcquireCmd.request (c : AcquireCmd) (r : Request) : CmdProg (Exit × AcquireCmd) :=
  if r.enable = some 0 then
    pure (.return, (AcquireCmd.publishMode { c with loops := 0 } 0).end)
  else
    let c := { c with acquireDuration := r.duration.getD c.acquireDuration }
    match r.mode with
    | none => pure (.throw 1 "You have to specify a mode", c)
    | some tmode => c.configure r tmode

/-- `setHandler`. -/
def AcquireCmd.setHandler (c : AcquireCmd) (r : Request) : CmdProg (Exit × AcquireCmd) := do
  if ← frame .getAccessor then do
    let c := c.reset
    let x ← driver (.iop .stop)
    if x.1 ≠ 0 then
      pure (.throw x.1 "Cannot stop acquire", (c.raise liberaErrorStopAcquire).end)
    else c.request r
  else
    pure (.throw (-1) "Cannot retrieve the requested driver",
      { c with mode := 0, offset := 0, loops := 1, acquireDuration := 0 })

/-! ## acquireHandler -/

/-- The attribute that the chain of `acquireHandler` over the mode bits reads into. -/
def readAttr (w : Word) : Option Attr :=
  if hits w liberaIopModeDd then some .dd
  else if hits w liberaIopModeSa then some .sa
  else if hits w liberaIopModeContinuous then some .adcCw
  else if hits w liberaIopModeSinglepass then some .adcSp
  else if hits w liberaIopModeAvg then some .avg
  else none

/-- What is published from the first atom at the pointer: nothing but for DD and SA. -/
def publish (a : Attr) (pnt : Atom) (old : Position) : Position :=
  match a with
  | .dd =>
    { va := pnt.member 0, vb := pnt.member 1, vc := pnt.member 2, vd := pnt.member 3
      x := pnt.member 4, y := pnt.member 5, q := pnt.member 6, sum := pnt.member 7
      q1 := 0, q2 := 0 }
  | .sa =>
    { va := pnt.member 0, vb := pnt.member 1, vc := pnt.member 2, vd := pnt.member 3
      x := pnt.member 6, y := pnt.member 7, q := pnt.member 5, sum := pnt.member 4
      q1 := pnt.member 8, q2 := pnt.member 9 }
  | _ => old

/-- The atoms at an address after a write to it. -/
def overwrite (old : ℕ → Atom) (data : List Atom) : ℕ → Atom := fun i => data.getD i (old i)

/-- The dataset with the atoms of a read in an attribute. -/
def Dataset.store (o : Dataset) (a : Attr) (data : List Atom) : Dataset :=
  { o with content := Function.update o.content a (overwrite (o.content a) data) }

/-- The dataset with the atoms of a read at the pointer of an attribute. -/
def AcquireCmd.received (c : AcquireCmd) (a : Attr) (ptr : Bool) (r : ReadOutcome) : Dataset :=
  if ptr then c.out.store a r.data else c.out

/-- The command after a read into an attribute. -/
def AcquireCmd.took (c : AcquireCmd) (a : Attr) (ptr : Bool) (r : ReadOutcome) : AcquireCmd :=
  let out := c.received a ptr r
  if 0 ≤ r.ret then
    { c with out :=
      { out with
        position := publish a (out.content a 0) out.position
        acquisition := out.acquisition + 1 } }
  else AcquireCmd.raise { c with out := out } liberaErrorReading

/-- The bytes that `acquireHandler` asks for: `samples*sizeof` an atom of the attribute. -/
def AcquireCmd.bcount (c : AcquireCmd) (a : Attr) : Word := c.samples * BitVec.ofNat 32 a.kind.size

/-- The branch of `acquireHandler` for an attribute, from the call of `read` on. -/
def AcquireCmd.readInto (c : AcquireCmd) (a : Attr) (ptr : Bool) : CmdProg AcquireCmd := do
  let buffer : Buffer := if ptr then some a.name else none
  let r ← driver (.read buffer channelDd (c.bcount a))
  -- SA dereferences its pointer without having compared it with null
  if 0 ≤ r.ret ∧ ptr = false ∧ a = .sa then do
    let e ← frame .fault
    e.elim
  else pure (c.took a ptr r)

/-- The chain of `acquireHandler`: `none` when the dataset `DD` is missing. -/
def AcquireCmd.acquire (c : AcquireCmd) : CmdProg (Option AcquireCmd) :=
  match readAttr c.mode with
  | none => pure (some c)
  | some a => do
    let ptr ← frame (.getRWPtr a)
    if !ptr && a = .dd then pure none
    else do
      let c ← c.readInto a ptr
      pure (some c)

/-- The bit that a failed STOP sets. -/
def AcquireCmd.stopped (c : AcquireCmd) (ret : ℤ) : AcquireCmd :=
  if ret ≠ 0 then c.raise liberaErrorStopAcquire else c

/-- `loops--`, for a finite number of loops. -/
def AcquireCmd.countDown (c : AcquireCmd) : AcquireCmd :=
  if (0 : Word).slt c.loops then { c with loops := c.loops - 1 } else c

/-- `acquireHandler` after the read: the end of the loop and the errors. -/
def AcquireCmd.finish (c : AcquireCmd) : CmdProg (Exit × AcquireCmd) :=
  if c.loops = 0 ∨ c.out.mode = 0 then do
    let x ← driver (.iop .stop)
    pure (.return, ((c.stopped x.1).publishMode 0).end)
  else if c.countDown.out.error ≠ 0 then do
    let x ← driver (.iop .stop)
    let c := (c.countDown.publishMode 0).stopped x.1
    pure (.throw c.out.error.toInt "Error Acquiring", c.end)
  else pure (.return, c.countDown)

/-- The time stamps, when the driver gives one. -/
def AcquireCmd.stamp (c : AcquireCmd) : IopOut → AcquireCmd
  | .ts ts =>
    { c with out :=
      { c.out with
        mt := ts.mt
        st := BitVec.ofInt 64 ts.tvSec * 1000000 + BitVec.ofInt 64 (ts.tvNsec / 1000) } }
  | _ => c

/-- `acquireHandler` after the test of the duration. -/
def AcquireCmd.iterate (c : AcquireCmd) : CmdProg (Exit × AcquireCmd) := do
  let x ← driver (.iop .getTs)
  let c := if x.1 = 0 then c.stamp x.2 else c
  match ← c.acquire with
  | none =>
    pure (.return, ((c.publishMode 0).raise liberaErrorAllocateDataset).end)
  | some c => c.finish

/-- The test of the duration: `(now - start_acquire) > (acquire_duration*1000)`, in 64 bits without
sign. -/
def AcquireCmd.expired (c : AcquireCmd) (now : BitVec 64) : Bool :=
  ((c.acquireDuration * 1000).signExtend 64).ult (now - c.startAcquire)

/-- `acquireHandler`. -/
def AcquireCmd.acquireHandler (c : AcquireCmd) : CmdProg (Exit × AcquireCmd) :=
  if c.acquireDuration ≠ 0 then do
    let t ← frame .now
    if c.expired t then pure (.return, (c.publishMode 0).end) else c.iterate
  else c.iterate

end LiberaDaq
