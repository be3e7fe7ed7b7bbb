import LiberaDaq.Interaction.Feed
import LiberaDaq.Text.Scan

/-!
# The firmware loader

`mspload` programs the MSP430 with the records of a file in the Intel HEX format, which it reads from
its standard input (`mspload.c`). `read_line` waits for the colon of a record, reads the bytes of the
record and sends them in a frame of the bootstrap loader; `read_file` does so until a record has no
data. The variable that a byte is scanned into holds anything when there are no digits to scan, and
the scans are not looked at.

What follows describes the state of the loader by what is left of its input, and by the frames that it
sent.
-/

namespace LiberaDaq.Msp

open LiberaDaq.Text LiberaDaq.Interaction

abbrev Byte := BitVec 8

def bslSync : Byte := 0x80

def bslTxblk : Byte := 0x12

def bslLoadpc : Byte := 0x1a

/-- The loader: what is left of its input, `StreamData`, what the variable of `read_byte` will hold
whenever there is nothing to scan, and the frames that were sent, each with what was left of the input
then. -/
structure Loader where
  input : List Char
  streamData : Char
  junk : ℕ → Byte
  sent : List (List Byte × List Char)

/-! ## Frames -/

/-- `checksum`: the frame with the complements of the bytes at its even and at its odd places. -/
def checksum (frame : List Byte) : List Byte :=
  let c := frame.zipIdx.foldl
    (fun c b => if b.2 % 2 = 0 then (c.1 ^^^ b.1, c.2) else (c.1, c.2 ^^^ b.1)) (0, 0)
  frame ++ [~~~c.1, ~~~c.2]

/-- `MSP_WRITE`. On the serial line another `BSL_SYNC` goes before the frame. -/
def Loader.mspWrite (frame : List Byte) (x : Loader) : Loader :=
  { x with sent := x.sent ++ [(frame, x.input)] }

/-- `load_PC_patch`. -/
def Loader.loadPcPatch (x : Loader) : Loader :=
  x.mspWrite (checksum [bslSync, bslLoadpc, 4, 4, 0x20, 0x02, 0, 0])

/-- `frame_gen`. -/
def Loader.frameGen (numberOfDataBytes addressH addressL : Byte) (S : List Byte) (x : Loader) :
    Loader :=
  x.mspWrite (checksum ([bslSync, bslTxblk, numberOfDataBytes + 4, numberOfDataBytes + 4, addressL,
    addressH, numberOfDataBytes, 0] ++ S))

/-! ## Records -/

/-- `scanf("%c",&StreamData)`. -/
def Loader.scanChar (x : Loader) : Loader :=
  match x.input with
  | [] => x
  | c :: s => { x with input := s, streamData := c }

/-- At most `n` turns of the loop that waits for the colon. -/
def seek : ℕ → Loader → Option Loader
  | 0, _ => none
  | n + 1, x => if x.scanChar.streamData ≠ ':' then seek n x.scanChar else some x.scanChar

/-- `StreamData = read_byte()`. -/
def Loader.readByte (x : Loader) : Byte × Loader :=
  match scanHexByte x.input with
  | (some b, s) => (b, { x with input := s, streamData := .ofNat b.toNat })
  | (none, s) =>
    (x.junk 0, { x with input := s, streamData := .ofNat (x.junk 0).toNat, junk := later x.junk 1 })

/-- The loop of `read_line` that fills `S`. -/
def Loader.readBytes : ℕ → Loader → List Byte × Loader
  | 0, x => ([], x)
  | k + 1, x =>
    let (b, x) := x.readByte
    let (S, x) := x.readBytes k
    (b :: S, x)

/-- The value of a `char`, which is signed on some machines. -/
def charValue (signed : Bool) (b : Byte) : ℤ := if signed then b.toInt else b.toNat

/-- `read_line` from the colon on; `none` when the array of the frame would have a negative number of
data bytes. -/
def readRecord (signed : Bool) (x : Loader) : Option (ℤ × Loader) :=
  let (numberOfDataBytes, x) := x.readByte
  if charValue signed numberOfDataBytes = 0 then some (1, x)
  else
    let (addressH, x) := x.readByte
    let (addressL, x) := x.readByte
    -- the type of the record
    let (_, x) := x.readByte
    let (S, x) := x.readBytes (charValue signed numberOfDataBytes).toNat
    -- the checksum of the record
    let (_, x) := x.readByte
    if charValue signed numberOfDataBytes < 0 then none
    else some (0, x.frameGen numberOfDataBytes addressH addressL S)

/-- `read_line`, with at most `n` turns of the loop that waits for the colon. -/
def readLine (signed : Bool) (n : ℕ) (x : Loader) : Option (ℤ × Loader) := do
  let x ← seek n x
  readRecord signed x

/-- At most `n` turns of the loop of `read_file`. -/
def readLines (signed : Bool) (m : ℕ) : ℕ → Loader → Option Loader
  | 0, _ => none
  | n + 1, x => do
    let (r, x) ← readLine signed m x.loadPcPatch
    if r = 0 then readLines signed m n x else pure x

/-- `read_file`. -/
def readFile (signed : Bool) (n : ℕ) (x : Loader) : Option (ℤ × Loader) := do
  let x ← readLines signed n n x.loadPcPatch
  pure (0, x)

variable {signed : Bool} {x y z : Loader} {m n k : ℕ}

/-! ## The checksum -/

/-- The bytes at the even places. -/
def evens : List Byte → List Byte
  | [] => []
  | [b] => [b]
  | b :: _ :: bs => b :: evens bs

/-- The bytes at the odd places. -/
def odds : List Byte → List Byte
  | [] => []
  | [_] => []
  | _ :: c :: bs => c :: odds bs

/-- The exclusive or of bytes. -/
def xorAll (bs : List Byte) : Byte := bs.foldr (· ^^^ ·) 0

theorem foldl_zipIdx (bs : List Byte) (k : ℕ) (c : Byte × Byte) :
    (bs.zipIdx (2 * k)).foldl
      (fun c b => if b.2 % 2 = 0 then (c.1 ^^^ b.1, c.2) else (c.1, c.2 ^^^ b.1)) c =
        (c.1 ^^^ xorAll (evens bs), c.2 ^^^ xorAll (odds bs)) := by
  induction bs using evens.induct generalizing k c with
  | case1 => simp [evens, odds, xorAll]
  | case2 b => simp [evens, odds, xorAll]
  | case3 b d bs ih =>
    have hnext := ih (k + 1) (c.1 ^^^ b, c.2 ^^^ d)
    rw [Nat.mul_add] at hnext
    have hodd : (2 * k + 1) % 2 ≠ 0 := by omega
    simp only [List.zipIdx_cons, List.foldl_cons, Nat.mul_mod_right, if_true, hodd, if_false, evens,
      odds]
    rw [hnext]
    simp [xorAll, BitVec.xor_assoc]

/-- **The checksum of a frame**: the complements of the exclusive or of its even and of its odd
places. -/
theorem checksum_eq (frame : List Byte) :
    checksum frame = frame ++ [~~~xorAll (evens frame), ~~~xorAll (odds frame)] := by
  have hfold := foldl_zipIdx frame 0 (0, 0)
  rw [Nat.mul_zero] at hfold
  rw [checksum, hfold]
  simp

end LiberaDaq.Msp
