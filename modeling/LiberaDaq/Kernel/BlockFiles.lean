import LiberaDaq.Kernel.FileAccess
import LiberaDaq.Interaction.Path

/-!
# The parameter blocks of FA and DSC

The FA and the DSC device (`libera_fa.c`, `libera_dsc.c`) are blocks of 32-bit registers of the
FPGA, which processes read and write as files: a file has a position in the block, in bytes, and a
request is cut off at the end of the block. The two drivers differ in the block alone.

A block is an array of words. The answers in every sequence of requests are correct for the array
that the successful writes make of the initial one (`blocks_refine`), the positions stay aligned and
in the block, and no other register is read or written.
-/

namespace LiberaDaq.Kernel

open LiberaDaq.Cspi LiberaDaq.Interaction

/-! ## The registers -/

/-- A block of registers, from an offset in the memory of the FPGA on, in bytes. -/
structure Block where
  base : ℕ
  size : ℕ
  aligned : size % 4 = 0
  small : size < 2 ^ 31

/-- `FAI_BLOCK` and `FAI_BLOCKSIZE`. -/
def faiBlock : Block := ⟨0x28000, 0x14000, by decide, by decide⟩

/-- `DSC_BLOCK` and `DSC_BLOCKSIZE`. -/
def dscBlock : Block := ⟨0x8000, 0xc000, by decide, by decide⟩

/-- The registers by their offset, the buffer of the device in words, `f_pos` of the files, and the
offsets that were read or written so far. -/
structure BlockWorld where
  reg : ℕ → Word
  buf : ℕ → Word
  fPos : Filp → BitVec 64
  touched : List ℕ

namespace BlockWorld

/-- The device when it was loaded, and files that were just opened. -/
def start (reg : ℕ → Word) : BlockWorld := ⟨reg, fun _ => 0, fun _ => 0, []⟩

/-- `readl`, into a word of the buffer. -/
def readl (s : BlockWorld) (addr i : ℕ) : BlockWorld :=
  { s with buf := Function.update s.buf i (s.reg addr), touched := s.touched ++ [addr] }

/-- `writel`, of a word of the buffer. -/
def writel (s : BlockWorld) (i addr : ℕ) : BlockWorld :=
  { s with reg := Function.update s.reg addr (s.buf i), touched := s.touched ++ [addr] }

/-- `libera_readlBlock`, from the word `i` on. -/
def readlBlock (addr : ℕ) : ℕ → ℕ → BlockWorld → BlockWorld
  | _, 0, s => s
  | i, n + 1, s => readlBlock addr (i + 1) n (s.readl (addr + 4 * i) i)

/-- `libera_writelBlock`, from the word `i` on. -/
def writelBlock (addr : ℕ) : ℕ → ℕ → BlockWorld → BlockWorld
  | _, 0, s => s
  | i, n + 1, s => writelBlock addr (i + 1) n (s.writel i (addr + 4 * i))

end BlockWorld

/-! ## The requests -/

/-- What a process asks of a file, with what is not up to the driver: whether a signal interrupts
the wait for the device, and whether the memory of the process can be accessed. A `copy_from_user`
that fails leaves something in the buffer. -/
inductive BlockRequest
  | lseek (off : BitVec 64) (whence : ℕ)
  | read (count : Word) (locked copied : Bool)
  | write (data : ℕ → Word) (count : Word) (locked : Bool) (fault : Option (ℕ → Word))

/-- What a request returns, and the words that were copied to the process. -/
structure BlockAnswer where
  ret : ℤ
  data : List Word

namespace Block

variable (b : Block)

/-- Where `lseek` counts from; `none` is not possible. -/
def newPos (pos off : BitVec 64) : ℕ → Option (BitVec 64)
  | 0 => some off
  | 1 => some (pos + off)
  | 2 => some (BitVec.ofNat 64 b.size + off)
  | _ => none

/-- `libera_fa_llseek` and `libera_dsc_llseek`. -/
def llseek (s : BlockWorld) (file : Filp) (off : BitVec 64) (whence : ℕ) :
    BlockAnswer × BlockWorld :=
  match b.newPos (s.fPos file) off whence with
  | none => (⟨-eInval, []⟩, s)
  | some newpos =>
    if newpos.toInt < 0 ∨ (b.size : ℤ) < newpos.toInt then (⟨-eInval, []⟩, s)
    else if newpos.toInt % 4 ≠ 0 then (⟨-eInval, []⟩, s)
    else (⟨newpos.toInt, []⟩, { s with fPos := Function.update s.fPos file newpos })

/-- The count of a request, cut off at the end of the block. -/
def clip (pos : BitVec 64) (count : Word) : ℕ :=
  if (b.size : ℤ) - pos.toInt < count.toNat then ((b.size : ℤ) - pos.toInt).toNat else count.toNat

/-- The position moves on. -/
def advance (s : BlockWorld) (file : Filp) (count : ℕ) : BlockWorld :=
  { s with fPos := Function.update s.fPos file (s.fPos file + BitVec.ofNat 64 count) }

/-- `libera_fa_read` and `libera_dsc_read`. -/
def read (s : BlockWorld) (file : Filp) (count : Word) (locked copied : Bool) :
    BlockAnswer × BlockWorld :=
  let pos := s.fPos file
  if !locked then (⟨-eRestartSys, []⟩, s)
  else if (b.size : ℤ) ≤ pos.toInt then (⟨0, []⟩, s)
  else
    let n := b.clip pos count
    if n % 4 ≠ 0 then (⟨-eInval, []⟩, s)
    else
      let s := s.readlBlock (b.base + pos.toNat) 0 (n / 4)
      if !copied then (⟨-eFault, []⟩, s)
      else (⟨n, (List.range (n / 4)).map s.buf⟩, advance s file n)

/-- `libera_fa_write` and `libera_dsc_write`. -/
def write (s : BlockWorld) (file : Filp) (data : ℕ → Word) (count : Word) (locked : Bool)
    (fault : Option (ℕ → Word)) : BlockAnswer × BlockWorld :=
  let pos := s.fPos file
  if !locked then (⟨-eRestartSys, []⟩, s)
  else if (b.size : ℤ) ≤ pos.toInt then (⟨0, []⟩, s)
  else
    let n := b.clip pos count
    if n % 4 ≠ 0 then (⟨-eInval, []⟩, s)
    else
      match fault with
      | some left => (⟨-eFault, []⟩, { s with buf := left })
      | none =>
        let s := { s with buf := fun i => if i < n / 4 then data i else s.buf i }
        let s := s.writelBlock (b.base + pos.toNat) 0 (n / 4)
        (⟨n, []⟩, advance s file n)

end Block

/-! ## The devices -/

/-- `libera_fa_llseek`, `libera_fa_read` and `libera_fa_write`. -/
def liberaFaLlseek := faiBlock.llseek

def liberaFaRead := faiBlock.read

def liberaFaWrite := faiBlock.write

/-- `libera_dsc_llseek`, `libera_dsc_read` and `libera_dsc_write`. -/
def liberaDscLlseek := dscBlock.llseek

def liberaDscRead := dscBlock.read

def liberaDscWrite := dscBlock.write

/-- The devices that are blocks. -/
inductive BlockDevice
  | fa | dsc
  deriving DecidableEq, Repr

namespace BlockDevice

def block : BlockDevice → Block
  | .fa => faiBlock
  | .dsc => dscBlock

/-- One request. -/
def serve (s : BlockWorld) (file : Filp) : BlockDevice → BlockRequest → BlockAnswer × BlockWorld
  | .fa, .lseek off whence => liberaFaLlseek s file off whence
  | .fa, .read count locked copied => liberaFaRead s file count locked copied
  | .fa, .write data count locked fault => liberaFaWrite s file data count locked fault
  | .dsc, .lseek off whence => liberaDscLlseek s file off whence
  | .dsc, .read count locked copied => liberaDscRead s file count locked copied
  | .dsc, .write data count locked fault => liberaDscWrite s file data count locked fault

/-- The answers to a sequence of requests, and the device after it. -/
def run (d : BlockDevice) :
    BlockWorld → List (Filp × BlockRequest) → List (Filp × BlockRequest × BlockAnswer) × BlockWorld
  | s, [] => ([], s)
  | s, (file, r) :: rs =>
    let x := serve s file d r
    let y := d.run x.2 rs
    ((file, r, x.1) :: y.1, y.2)

end BlockDevice

/-! ## The array of words -/

/-- An array of words, and the positions of the files in it, in bytes. -/
structure WordArray where
  word : ℕ → Word
  pos : Filp → ℕ

namespace WordArray

/-- The position moves on by what a request has returned. -/
def moveOn (a : WordArray) (file : Filp) (ret : ℤ) : WordArray :=
  { a with pos := Function.update a.pos file (a.pos file + ret.toNat) }

/-- The words from an index on are replaced. -/
def replace (a : WordArray) (i n : ℕ) (data : ℕ → Word) : WordArray :=
  { a with word := fun j => if i ≤ j ∧ j < i + n then data (j - i) else a.word j }

/-- What a request makes of the array, given its answer. A request that fails changes nothing. -/
def step (a : WordArray) : Filp × BlockRequest × BlockAnswer → WordArray
  | (file, .lseek _ _, x) =>
    if x.ret < 0 then a else { a with pos := Function.update a.pos file x.ret.toNat }
  | (file, .read _ _ _, x) => if x.ret < 0 then a else a.moveOn file x.ret
  | (file, .write data _ _ _, x) =>
    if x.ret < 0 then a else (a.replace (a.pos file / 4) (x.ret.toNat / 4) data).moveOn file x.ret

/-- The answer to a request that succeeds: the new position is in the block and aligned, as many
words as the count says are in the block, and those that were read are the words of the array. -/
def Correct (size : ℕ) (a : WordArray) : Filp × BlockRequest × BlockAnswer → Prop
  | (_, .lseek _ _, x) => 0 ≤ x.ret → x.ret ≤ size ∧ x.ret % 4 = 0
  | (file, .read count _ _, x) => 0 ≤ x.ret →
    x.ret ≤ count.toNat ∧ x.ret % 4 = 0 ∧ a.pos file + x.ret ≤ size ∧
      x.data = (List.range (x.ret.toNat / 4)).map fun k => a.word (a.pos file / 4 + k)
  | (file, .write _ count _ _, x) => 0 ≤ x.ret →
    x.ret ≤ count.toNat ∧ x.ret % 4 = 0 ∧ a.pos file + x.ret ≤ size

/-- A request that fails is correct, and changes nothing. -/
theorem refused (a : WordArray) (size : ℕ) (file : Filp) (r : BlockRequest) {x : BlockAnswer}
    (hx : x.ret < 0) : a.Correct size (file, r, x) ∧ a.step (file, r, x) = a := by
  have hfail : ¬0 ≤ x.ret := not_le.2 hx
  cases r with
  | lseek => exact ⟨fun hok => absurd hok hfail, if_pos hx⟩
  | read => exact ⟨fun hok => absurd hok hfail, if_pos hx⟩
  | write => exact ⟨fun hok => absurd hok hfail, if_pos hx⟩

end WordArray

/-! ## The loops over the registers -/

namespace BlockWorld

variable {s : BlockWorld} {addr i n : ℕ}

/-- The offsets that a block of `n` words covers, from the word `i` on. -/
def offsets (addr i n : ℕ) : List ℕ := (List.range' i n).map fun k => addr + 4 * k

theorem offsets_succ (addr i n : ℕ) :
    offsets addr i (n + 1) = (addr + 4 * i) :: offsets addr (i + 1) n := by
  rw [offsets, List.range'_succ, List.map_cons, offsets]

theorem readlBlock_spec (addr i n : ℕ) (s : BlockWorld) :
    (s.readlBlock addr i n).reg = s.reg ∧ (s.readlBlock addr i n).fPos = s.fPos ∧
      (s.readlBlock addr i n).touched = s.touched ++ offsets addr i n ∧
      ∀ k, (s.readlBlock addr i n).buf k =
        if i ≤ k ∧ k < i + n then s.reg (addr + 4 * k) else s.buf k := by
  induction n generalizing i s with
  | zero =>
    refine ⟨rfl, rfl, (List.append_nil _).symm, fun k => ?_⟩
    rw [if_neg (by omega)]
    rfl
  | succ n ih =>
    obtain ⟨hreg, hpos, htouched, hbuf⟩ := ih (i + 1) (s.readl (addr + 4 * i) i)
    refine ⟨hreg, hpos, ?_, fun k => ?_⟩
    · rw [readlBlock, htouched, readl, offsets_succ, List.append_assoc]
      rfl
    · rw [readlBlock, hbuf k, readl]
      dsimp only
      rcases Nat.lt_trichotomy k i with hlt | rfl | hgt
      · rw [if_neg (by omega), if_neg (by omega), Function.update_of_ne (by omega)]
      · rw [if_neg (by omega), if_pos (by omega), Function.update_self]
      · rw [Function.update_of_ne (by omega)]
        have hiff : i + 1 ≤ k ∧ k < i + 1 + n ↔ i ≤ k ∧ k < i + (n + 1) := by omega
        simp only [hiff]

theorem writelBlock_spec (addr i n : ℕ) (s : BlockWorld) :
    (s.writelBlock addr i n).buf = s.buf ∧ (s.writelBlock addr i n).fPos = s.fPos ∧
      (s.writelBlock addr i n).touched = s.touched ++ offsets addr i n ∧
      (∀ k, i ≤ k → k < i + n → (s.writelBlock addr i n).reg (addr + 4 * k) = s.buf k) ∧
      ∀ x, x ∉ offsets addr i n → (s.writelBlock addr i n).reg x = s.reg x := by
  induction n generalizing i s with
  | zero => exact ⟨rfl, rfl, (List.append_nil _).symm, fun k hik hk => by omega, fun _ _ => rfl⟩
  | succ n ih =>
    obtain ⟨hbuf, hpos, htouched, hin, hout⟩ := ih (i + 1) (s.writel i (addr + 4 * i))
    refine ⟨hbuf, hpos, ?_, fun k hik hk => ?_, fun x hx => ?_⟩
    · rw [writelBlock, htouched, writel, offsets_succ, List.append_assoc]
      rfl
    · rw [writelBlock]
      rcases Nat.eq_or_lt_of_le hik with rfl | hlt
      · have hnotin : addr + 4 * i ∉ offsets addr (i + 1) n := by
          simp [offsets]
        rw [hout _ hnotin, writel]
        exact Function.update_self ..
      · rw [hin k hlt (by omega), writel]
    · rw [offsets_succ, List.mem_cons, not_or] at hx
      rw [writelBlock, hout x hx.2, writel]
      exact Function.update_of_ne hx.1 ..

end BlockWorld

/-! ## Refinement -/

/-- The files are where the array says, in the block and aligned, the registers of the block are the
words of the array, and no other register was touched. -/
structure Represents (b : Block) (s : BlockWorld) (a : WordArray) : Prop where
  pos : ∀ file, (s.fPos file).toNat = a.pos file
  pos_le : ∀ file, a.pos file ≤ b.size
  pos_aligned : ∀ file, a.pos file % 4 = 0
  word : ∀ i < b.size / 4, s.reg (b.base + 4 * i) = a.word i
  touched : ∀ x ∈ s.touched, ∃ i < b.size / 4, x = b.base + 4 * i

namespace Represents

variable {b : Block} {s : BlockWorld} {a : WordArray} {file : Filp}

theorem toInt_pos (h : Represents b s a) (file : Filp) : (s.fPos file).toInt = a.pos file := by
  have hlt := h.pos_le file
  have hsmall := b.small
  rw [BitVec.toInt_eq_toNat_of_lt (by rw [h.pos]; omega), h.pos]

/-- A file is set to a position in the block. -/
theorem setPos (h : Represents b s a) (file : Filp) {pos : BitVec 64} {n : ℕ} (hpos : pos.toNat = n)
    (hle : n ≤ b.size) (haligned : n % 4 = 0) :
    Represents b { s with fPos := Function.update s.fPos file pos }
      { a with pos := Function.update a.pos file n } where
  pos f := by
    by_cases hf : f = file
    · subst hf
      simpa using hpos
    · simpa [hf] using h.pos f
  pos_le f := by
    by_cases hf : f = file
    · subst hf
      simpa using hle
    · simpa [hf] using h.pos_le f
  pos_aligned f := by
    by_cases hf : f = file
    · subst hf
      simpa using haligned
    · simpa [hf] using h.pos_aligned f
  word := h.word
  touched := h.touched

/-- The position moves on in the block. -/
theorem advance (h : Represents b s a) (file : Filp) {n : ℕ} (hle : a.pos file + n ≤ b.size)
    (haligned : n % 4 = 0) : Represents b (Block.advance s file n) (a.moveOn file n) := by
  have hsmall := b.small
  have hsum : (s.fPos file + BitVec.ofNat 64 n).toNat = a.pos file + n := by
    rw [BitVec.toNat_add, BitVec.toNat_ofNat, h.pos, Nat.mod_eq_of_lt (show n < 2 ^ 64 by omega)]
    exact Nat.mod_eq_of_lt (by omega)
  have hpos := h.pos_aligned file
  exact h.setPos file hsum hle (by omega)

/-- What is left of the block after the position, and what a request gets of it. -/
theorem clip_spec (h : Represents b s a) (file : Filp) (count : Word) :
    b.clip (s.fPos file) count ≤ count.toNat ∧
      a.pos file + b.clip (s.fPos file) count ≤ b.size := by
  have hle := h.pos_le file
  rw [Block.clip, h.toInt_pos]
  split_ifs <;> omega

/-- The registers of a request are those of the words of the array from the position on. -/
theorem mem_offsets (h : Represents b s a) (file : Filp) {n : ℕ} (hle : a.pos file + n ≤ b.size)
    {x : ℕ} (hx : x ∈ BlockWorld.offsets (b.base + (s.fPos file).toNat) 0 (n / 4)) :
    ∃ k < n / 4, a.pos file / 4 + k < b.size / 4 ∧ x = b.base + 4 * (a.pos file / 4 + k) := by
  obtain ⟨k, hk, rfl⟩ := List.mem_map.1 hx
  have hbounds := List.mem_range'_1.1 hk
  have haligned := h.pos_aligned file
  have hsize := b.aligned
  rw [h.pos]
  exact ⟨k, by omega, by omega, by omega⟩

/-- A request from the position on touches registers of the block. -/
theorem touched_more (h : Represents b s a) (file : Filp) {n : ℕ} (hle : a.pos file + n ≤ b.size)
    {x : ℕ}
    (hx : x ∈ s.touched ++ BlockWorld.offsets (b.base + (s.fPos file).toNat) 0 (n / 4)) :
    ∃ i < b.size / 4, x = b.base + 4 * i := by
  rcases List.mem_append.1 hx with hx | hx
  · exact h.touched x hx
  · obtain ⟨k, _, hk, rfl⟩ := h.mem_offsets file hle hx
    exact ⟨_, hk, rfl⟩

/-- The loop of a read leaves the block as it is. -/
theorem loaded (h : Represents b s a) (file : Filp) {n : ℕ} (hle : a.pos file + n ≤ b.size) :
    Represents b (s.readlBlock (b.base + (s.fPos file).toNat) 0 (n / 4)) a := by
  obtain ⟨hreg, hpos, htouched, -⟩ :=
    BlockWorld.readlBlock_spec (b.base + (s.fPos file).toNat) 0 (n / 4) s
  refine ⟨by rw [hpos]; exact h.pos, h.pos_le, h.pos_aligned, by rw [hreg]; exact h.word, ?_⟩
  intro x hx
  rw [htouched] at hx
  exact h.touched_more file hle hx

/-- The loop of a write puts the words of the buffer into the array. -/
theorem stored (h : Represents b s a) (file : Filp) (data : ℕ → Word) {n : ℕ}
    (hle : a.pos file + n ≤ b.size) :
    Represents b
      (BlockWorld.writelBlock (b.base + (s.fPos file).toNat) 0 (n / 4)
        { s with buf := fun i => if i < n / 4 then data i else s.buf i })
      (a.replace (a.pos file / 4) (n / 4) data) := by
  have haligned := h.pos_aligned file
  obtain ⟨-, hpos, htouched, hin, hout⟩ := BlockWorld.writelBlock_spec
    (b.base + (s.fPos file).toNat) 0 (n / 4)
      { s with buf := fun i => if i < n / 4 then data i else s.buf i }
  refine ⟨by rw [hpos]; exact h.pos, h.pos_le, h.pos_aligned, fun i hi => ?_, fun x hx => ?_⟩
  · rw [WordArray.replace]
    dsimp only
    split_ifs with hinside
    · have hk := hin (i - a.pos file / 4) (Nat.zero_le _) (by omega)
      have haddr : b.base + 4 * i = b.base + (s.fPos file).toNat + 4 * (i - a.pos file / 4) := by
        rw [h.pos]
        omega
      rw [haddr, hk]
      exact if_pos (by omega)
    · rw [hout, h.word i hi]
      intro hmem
      obtain ⟨k, hk, _, heq⟩ := h.mem_offsets file hle hmem
      omega
  · rw [htouched] at hx
    exact h.touched_more file hle hx

/-- A request that fails, after which the registers and the positions are as before. -/
theorem refused (h : Represents b s a) (file : Filp) (r : BlockRequest) {ret : ℤ} (hret : ret < 0) :
    a.Correct b.size (file, r, ⟨ret, []⟩) ∧ Represents b s (a.step (file, r, ⟨ret, []⟩)) := by
  obtain ⟨hcorrect, hstep⟩ := a.refused b.size file r (x := ⟨ret, []⟩) hret
  exact ⟨hcorrect, by rwa [hstep]⟩

theorem llseek (h : Represents b s a) (file : Filp) (off : BitVec 64) (whence : ℕ) :
    let x := b.llseek s file off whence
    a.Correct b.size (file, .lseek off whence, x.1) ∧
      Represents b x.2 (a.step (file, .lseek off whence, x.1)) := by
  have hinval : -eInval < 0 := by decide
  rw [Block.llseek]
  split
  · exact h.refused file _ hinval
  · next newpos _ =>
    split_ifs with hrange hodd
    · exact h.refused file _ hinval
    · exact h.refused file _ hinval
    · rw [not_or, not_lt, not_lt] at hrange
      obtain ⟨hnonneg, hle⟩ := hrange
      rw [not_not] at hodd
      refine ⟨fun _ => ⟨hle, hodd⟩, ?_⟩
      have hpos : newpos.toNat = newpos.toInt.toNat := by
        have hcond := BitVec.toInt_eq_toNat_cond newpos
        split_ifs at hcond <;> omega
      have hle' : newpos.toInt.toNat ≤ b.size := by omega
      have haligned : newpos.toInt.toNat % 4 = 0 := by omega
      rw [WordArray.step, if_neg (not_lt.2 hnonneg)]
      exact h.setPos file hpos hle' haligned

/-- At the end of the block there is nothing to read or write. -/
theorem at_end (h : Represents b s a) (file : Filp) : Represents b s (a.moveOn file 0) := by
  have hsame : a.moveOn file 0 = a := by
    rw [WordArray.moveOn, Int.toNat_zero, Nat.add_zero, Function.update_eq_self]
  rwa [hsame]

theorem read (h : Represents b s a) (file : Filp) (count : Word) (locked copied : Bool) :
    let x := b.read s file count locked copied
    a.Correct b.size (file, .read count locked copied, x.1) ∧
      Represents b x.2 (a.step (file, .read count locked copied, x.1)) := by
  obtain ⟨hcount, hle⟩ := h.clip_spec file count
  have haligned := h.pos_aligned file
  unfold Block.read
  dsimp only
  by_cases hlocked : (!locked) = true
  · rw [if_pos hlocked]
    exact h.refused file _ (by decide)
  rw [if_neg hlocked]
  by_cases hend : (b.size : ℤ) ≤ (s.fPos file).toInt
  · rw [if_pos hend]
    have hle := h.pos_le file
    exact ⟨fun _ => ⟨by simp, rfl, by simpa using hle, by simp⟩, h.at_end file⟩
  rw [if_neg hend]
  generalize b.clip (s.fPos file) count = n at hcount hle ⊢
  by_cases hodd : n % 4 ≠ 0
  · rw [if_pos hodd]
    exact h.refused file _ (by decide)
  rw [if_neg hodd]
  obtain ⟨-, -, -, hbuf⟩ :=
    BlockWorld.readlBlock_spec (b.base + (s.fPos file).toNat) 0 (n / 4) s
  have hread := h.loaded file hle
  by_cases hcopied : (!copied) = true
  · rw [if_pos hcopied]
    exact hread.refused file _ (by decide)
  rw [if_neg hcopied]
  rw [not_not] at hodd
  have hcount' : (n : ℤ) ≤ count.toNat := by exact_mod_cast hcount
  have hodd' : (n : ℤ) % 4 = 0 := by exact_mod_cast hodd
  have hle' : (a.pos file : ℤ) + n ≤ b.size := by exact_mod_cast hle
  refine ⟨fun _ => ⟨hcount', hodd', hle', ?_⟩, ?_⟩
  · dsimp only
    rw [Int.toNat_natCast]
    refine List.map_congr_left fun k hk => ?_
    have hlt := List.mem_range.1 hk
    rw [hbuf, if_pos (by omega), ← h.word _ (by omega), h.pos]
    congr 1
    omega
  · rw [WordArray.step, if_neg (by simp)]
    exact hread.advance file hle hodd

theorem write (h : Represents b s a) (file : Filp) (data : ℕ → Word) (count : Word) (locked : Bool)
    (fault : Option (ℕ → Word)) :
    let x := b.write s file data count locked fault
    a.Correct b.size (file, .write data count locked fault, x.1) ∧
      Represents b x.2 (a.step (file, .write data count locked fault, x.1)) := by
  obtain ⟨hcount, hle⟩ := h.clip_spec file count
  unfold Block.write
  dsimp only
  by_cases hlocked : (!locked) = true
  · rw [if_pos hlocked]
    exact h.refused file _ (by decide)
  rw [if_neg hlocked]
  by_cases hend : (b.size : ℤ) ≤ (s.fPos file).toInt
  · rw [if_pos hend]
    have hle := h.pos_le file
    have hnone : a.replace (a.pos file / 4) 0 data = a := by
      rw [WordArray.replace]
      congr 1
      funext j
      rw [if_neg (by omega)]
    refine ⟨fun _ => ⟨by simp, rfl, by simpa using hle⟩, ?_⟩
    have hstep : a.step (file, .write data count locked fault, ⟨0, []⟩) =
        (a.replace (a.pos file / 4) 0 data).moveOn file 0 := rfl
    rw [hstep, hnone]
    exact h.at_end file
  rw [if_neg hend]
  generalize b.clip (s.fPos file) count = n at hcount hle ⊢
  by_cases hodd : n % 4 ≠ 0
  · rw [if_pos hodd]
    exact h.refused file _ (by decide)
  rw [if_neg hodd]
  rw [not_not] at hodd
  cases fault with
  | some left =>
    have hleft : Represents b { s with buf := left } a :=
      ⟨h.pos, h.pos_le, h.pos_aligned, h.word, h.touched⟩
    exact hleft.refused file _ (by decide)
  | none =>
    dsimp only
    have hwritten := h.stored file data hle
    have hcount' : (n : ℤ) ≤ count.toNat := by exact_mod_cast hcount
    have hodd' : (n : ℤ) % 4 = 0 := by exact_mod_cast hodd
    have hle' : (a.pos file : ℤ) + n ≤ b.size := by exact_mod_cast hle
    refine ⟨fun _ => ⟨hcount', hodd', hle'⟩, ?_⟩
    rw [WordArray.step, if_neg (by simp)]
    exact hwritten.advance file hle hodd

end Represents

/-- One request. -/
theorem Represents.serve {d : BlockDevice} {s : BlockWorld} {a : WordArray}
    (h : Represents d.block s a) (file : Filp) (r : BlockRequest) :
    a.Correct d.block.size (file, r, (BlockDevice.serve s file d r).1) ∧
      Represents d.block (BlockDevice.serve s file d r).2
        (a.step (file, r, (BlockDevice.serve s file d r).1)) := by
  cases d with
  | fa =>
    cases r with
    | lseek off whence => exact h.llseek file off whence
    | read count locked copied => exact h.read file count locked copied
    | write data count locked fault => exact h.write file data count locked fault
  | dsc =>
    cases r with
    | lseek off whence => exact h.llseek file off whence
    | read count locked copied => exact h.read file count locked copied
    | write data count locked fault => exact h.write file data count locked fault

/-- The array that the block is when the device is loaded. -/
def BlockDevice.initial (d : BlockDevice) (reg : ℕ → Word) : WordArray :=
  ⟨fun i => reg (d.block.base + 4 * i), fun _ => 0⟩

theorem represents_start (d : BlockDevice) (reg : ℕ → Word) :
    Represents d.block (.start reg) (d.initial reg) where
  pos _ := rfl
  pos_le _ := Nat.zero_le _
  pos_aligned _ := rfl
  word _ _ := rfl
  touched _ hx := nomatch hx

/-- Any requests. -/
theorem Represents.run {d : BlockDevice} {s : BlockWorld} {a : WordArray}
    (h : Represents d.block s a) (rs : List (Filp × BlockRequest)) :
    Along WordArray.step (WordArray.Correct d.block.size) a (d.run s rs).1 ∧
      Represents d.block (d.run s rs).2 ((d.run s rs).1.foldl WordArray.step a) := by
  induction rs generalizing s a with
  | nil => exact ⟨trivial, h⟩
  | cons r rs ih =>
    obtain ⟨hcorrect, hnext⟩ := h.serve r.1 r.2
    obtain ⟨hrest, hend⟩ := ih hnext
    exact ⟨⟨hcorrect, hrest⟩, hend⟩

/-- **FA and DSC are arrays of words.** In every sequence of requests to files of one of the devices
each answer is correct for the array that the writes before it have made of the initial one; and the
files and the registers of the block are as this array says after each of them, the positions in the
block and aligned, and no register outside of the block has been touched. -/
theorem blocks_refine (d : BlockDevice) (reg : ℕ → Word) (rs : List (Filp × BlockRequest)) :
    Along WordArray.step (WordArray.Correct d.block.size) (d.initial reg)
      (d.run (.start reg) rs).1 ∧
      Represents d.block (d.run (.start reg) rs).2
        ((d.run (.start reg) rs).1.foldl WordArray.step (d.initial reg)) :=
  (represents_start d reg).run rs

/-- A write that is cut off at the end of the block, and the words read back. -/
example :
    let s := (BlockDevice.dsc.run (.start fun _ => 7)
      [(1, .lseek (-8) 2), (1, .write (fun i => BitVec.ofNat 32 i) 64 true none),
        (1, .lseek (-12) 1), (1, .read 12 true true)]).1
    s.map (fun m => (m.2.2.ret, m.2.2.data)) =
      [(49144, []), (8, []), (49140, []), (12, [7, 0, 1])] := by
  decide +kernel

end LiberaDaq.Kernel
