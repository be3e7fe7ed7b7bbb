import LiberaDaq.Msp.HexFile

/-!
# What goes over the serial line

`mspload` erases and programs the MSP430 over its serial port (`mspload.c`). It switches the chip to
its bootstrap loader and back with three bits of a register of the CPLD, and sends a frame for each
command: a synchronisation byte, the command, twice the number of the bytes that follow, these bytes,
and a checksum.

A receiver that takes the bytes of the line apart into packets gets back the commands: those that
prepare the chip, and one block for each record of the file up to one without data. This holds exactly
if no record has more than 251 bytes, for the number of the bytes that follow has to fit in one byte
(`programming_received_iff`).
-/

namespace LiberaDaq.Msp

open LiberaDaq.Text LiberaDaq.Interaction

/-! ## The commands -/

def bslTxpword : Byte := 0x10

def bslMeras : Byte := 0x18

/-- `PGM`, `TCK` and `RST_NMI`, the bits of the register. -/
def pgm : Byte := 0x04

def tck : Byte := 0x02

def rstNmi : Byte := 0x01

/-- What `mspload` puts out: a value of the register of the CPLD, or a frame. -/
inductive Output
  | cpld (reg : Byte)
  | frame (bs : List Byte)
  deriving DecidableEq, Repr

/-- `Bootstrap_ON`. -/
def bootstrapOn : List Output :=
  [.cpld (pgm ||| tck ||| rstNmi), .cpld ((pgm ||| tck) &&& ~~~rstNmi),
    .cpld (pgm &&& ~~~tck &&& ~~~rstNmi), .cpld ((pgm ||| tck) &&& ~~~rstNmi),
    .cpld (pgm &&& ~~~tck &&& ~~~rstNmi), .cpld ((pgm &&& ~~~tck) ||| rstNmi),
    .cpld (pgm ||| tck ||| rstNmi)]

/-- `Bootstrap_OFF`. -/
def bootstrapOff : List Output := [.cpld (~~~pgm &&& (tck ||| rstNmi))]

/-- `Reset_msp`. -/
def resetMsp : List Output :=
  [.cpld ((pgm ||| tck) &&& ~~~rstNmi), .cpld (pgm ||| tck ||| rstNmi),
    .cpld ((rstNmi ||| tck) &&& ~~~pgm)]

/-- `erase_mem`. -/
def eraseMem : List Output := [.frame (checksum [bslSync, bslMeras, 4, 4, 0, 0, 0, 0])]

/-- `passwd`. -/
def passwd : List Output :=
  [.frame (checksum ([bslSync, bslTxpword, 0x24, 0x24, 0, 0, 0, 0] ++ List.replicate 32 0xFF))]

/-- `load_PC`. -/
def loadPC : List Output := [.frame (checksum [bslSync, bslLoadpc, 4, 4, 0x22, 0x0C, 0, 0])]

/-- `load_PC_patch`, as an output of its own. -/
def loadPCPatch : List Output := [.frame (checksum [bslSync, bslLoadpc, 4, 4, 0x20, 0x02, 0, 0])]

/-- The program that `load_PATCH` transmits. -/
def patch : List Byte :=
  [0x31, 0x40, 0x1A, 0x02, 0x09, 0x43, 0xB0, 0x12, 0x2A, 0x0E, 0xB0, 0x12, 0xBA, 0x0D, 0x55, 0x42,
    0x0B, 0x02, 0x75, 0x90, 0x12, 0x00, 0x1F, 0x24, 0xB0, 0x12, 0xBA, 0x02, 0x55, 0x42, 0x0B, 0x02,
    0x75, 0x90, 0x16, 0x00, 0x16, 0x24, 0x75, 0x90, 0x14, 0x00, 0x11, 0x24, 0xB0, 0x12, 0x84, 0x0E,
    0x06, 0x3C, 0xB0, 0x12, 0x94, 0x0E, 0x03, 0x3C, 0x21, 0x53, 0xB0, 0x12, 0x8C, 0x0E, 0xB2, 0x40,
    0x10, 0xA5, 0x2C, 0x01, 0xB2, 0x40, 0x00, 0xA5, 0x28, 0x01, 0x30, 0x40, 0x42, 0x0C, 0x30, 0x40,
    0x76, 0x0D, 0x30, 0x40, 0xAC, 0x0C, 0x16, 0x42, 0x0E, 0x02, 0x17, 0x42, 0x10, 0x02, 0xE2, 0xB2,
    0x08, 0x02, 0x14, 0x24, 0xB0, 0x12, 0x10, 0x0F, 0x36, 0x90, 0x00, 0x10, 0x06, 0x28, 0xB2, 0x40,
    0x00, 0xA5, 0x2C, 0x01, 0xB2, 0x40, 0x40, 0xA5, 0x28, 0x01, 0xD6, 0x42, 0x06, 0x02, 0x00, 0x00,
    0x16, 0x53, 0x17, 0x83, 0xEF, 0x23, 0xB0, 0x12, 0xBA, 0x02, 0xD3, 0x3F, 0xB0, 0x12, 0x10, 0x0F,
    0x17, 0x83, 0xFC, 0x23, 0xB0, 0x12, 0xBA, 0x02, 0xD0, 0x3F, 0x18, 0x42, 0x12, 0x02, 0xB0, 0x12,
    0x10, 0x0F, 0xD2, 0x42, 0x06, 0x02, 0x12, 0x02, 0xB0, 0x12, 0x10, 0x0F, 0xD2, 0x42, 0x06, 0x02,
    0x13, 0x02, 0x38, 0xE3, 0x18, 0x92, 0x12, 0x02, 0xBF, 0x23, 0xE2, 0xB3, 0x08, 0x02, 0xBC, 0x23,
    0x30, 0x41]

/-- `load_PATCH`. -/
def loadPATCH : List Output :=
  [.frame (checksum ([bslSync, bslTxblk, 0xC6, 0xC6, 0x20, 0x02, 0xC2, 0] ++ patch))]

/-- `read_file`, as outputs. -/
def readFileOutputs (signed : Bool) (n : ℕ) (x : Loader) : Option (List Output) :=
  (readFile signed n { x with sent := [] }).map fun r => r.2.sent.map fun f => .frame f.1

/-- What `main` does before it reads the file. -/
def prepare : List Output :=
  bootstrapOn ++ eraseMem ++ bootstrapOff ++ resetMsp ++ bootstrapOn ++ passwd ++ loadPC ++ passwd ++
    loadPATCH ++ loadPCPatch

/-- What `main` does for the first letter of its argument. -/
def mspload (signed : Bool) (n : ℕ) (x : Loader) : Char → Option (List Output)
  | 'e' => some (bootstrapOn ++ eraseMem ++ bootstrapOff ++ resetMsp)
  | 'r' => some resetMsp
  | 'w' => (readFileOutputs signed n x).map fun records =>
    prepare ++ records ++ bootstrapOff ++ resetMsp
  | _ => some []

/-- The bytes on the serial line. Another `BSL_SYNC` goes before each frame. -/
def serial (out : List Output) : List Byte :=
  out.flatMap fun
    | .cpld _ => []
    | .frame bs => bslSync :: bs

/-! ## The receiver -/

/-- A command with the bytes that follow it. -/
structure Packet where
  command : Byte
  payload : List Byte
  deriving DecidableEq, Repr

/-- A packet is taken off the line. Both bytes of its length and its checksum have to be right. -/
def takePacket : List Byte → Option (Packet × List Byte)
  | sync :: start :: command :: len :: len' :: bs =>
    if sync = bslSync ∧ start = bslSync ∧ len = len' ∧ checksum ([start, command, len, len'] ++
        bs.take len.toNat) = [start, command, len, len'] ++ bs.take (len.toNat + 2) then
      some (⟨command, bs.take len.toNat⟩, bs.drop (len.toNat + 2))
    else none
  | _ => none

/-- At most `n` packets are taken off the line, until nothing is left. -/
def takePackets : ℕ → List Byte → Option (List Packet)
  | 0, bs => if bs = [] then some [] else none
  | n + 1, bs =>
    if bs = [] then some []
    else do
      let (p, bs) ← takePacket bs
      let ps ← takePackets n bs
      pure (p :: ps)

/-- All packets of the line. -/
def receive (bs : List Byte) : Option (List Packet) := takePackets bs.length bs

/-- The packet of a record. -/
def Record.packet (r : Record) : Packet :=
  ⟨bslTxblk, [r.addressL.value, r.addressH.value, r.length.value, 0] ++ r.data.map HexByte.value⟩

/-- The packets that erase the chip, unlock it and load the patch. -/
def preparation : List Packet :=
  [⟨bslMeras, [0, 0, 0, 0]⟩, ⟨bslTxpword, [0, 0, 0, 0] ++ List.replicate 32 0xFF⟩,
    ⟨bslLoadpc, [0x22, 0x0C, 0, 0]⟩, ⟨bslTxpword, [0, 0, 0, 0] ++ List.replicate 32 0xFF⟩,
    ⟨bslTxblk, [0x20, 0x02, 0xC2, 0] ++ patch⟩]

/-- The packet that starts the patch. -/
def startPatch : Packet := ⟨bslLoadpc, [0x20, 0x02, 0, 0]⟩

/-- The records of a file up to the first one without data. -/
def HexFile.programmed (f : HexFile) : List Record := f.all.takeWhile fun r => r.data ≠ []

/-- The packets that program a file. The patch is started once for each record, and three times
more. -/
def HexFile.packets (f : HexFile) : List Packet :=
  preparation ++ [startPatch, startPatch] ++ f.programmed.flatMap (fun r => [startPatch, r.packet]) ++
    [startPatch]

/-- What the register holds after an output. -/
def setCpld (reg : Option Byte) : Output → Option Byte
  | .cpld reg' => some reg'
  | .frame _ => reg

/-- From a value of the register on, every frame is sent while the chip is in its bootstrap loader. -/
def Armed : Option Byte → List Output → Prop
  | _, [] => True
  | reg, .cpld reg' :: out => Armed (setCpld reg (.cpld reg')) out
  | reg, .frame _ :: out => reg = some (pgm ||| tck ||| rstNmi) ∧ Armed reg out

variable {signed : Bool} {x y : Loader} {m n : ℕ} {p p' : Packet} {ps : List Packet} {bs : List Byte}

/-! ## Packets -/

/-- The frame of a packet. -/
def Packet.frame (p : Packet) : List Byte :=
  checksum ([bslSync, p.command, .ofNat 8 p.payload.length, .ofNat 8 p.payload.length] ++ p.payload)

/-- The bytes of packets on the line. -/
def line (ps : List Packet) : List Byte := ps.flatMap fun p => bslSync :: p.frame

/-- What a receiver takes for the bytes of the packet is never longer than a byte can count. -/
theorem takePacket_length {rest : List Byte} (h : takePacket bs = some (p, rest)) :
    p.payload.length < 256 := by
  unfold takePacket at h
  split at h
  · next len len' bs' =>
    split at h
    · cases Option.some.inj h
      have hlt := len.isLt
      rw [List.length_take]
      omega
    · cases h
  · cases h

/-- **A packet is received** as it was sent, if its length fits in a byte. -/
theorem takePacket_frame (hp : p.payload.length < 256) (rest : List Byte) :
    takePacket (bslSync :: p.frame ++ rest) = some (p, rest) := by
  have hlen : (BitVec.ofNat 8 p.payload.length).toNat = p.payload.length := by
    rw [BitVec.toNat_ofNat]
    exact Nat.mod_eq_of_lt hp
  obtain ⟨c, c', hframe⟩ : ∃ c c', p.frame = [bslSync, p.command, .ofNat 8 p.payload.length,
      .ofNat 8 p.payload.length] ++ p.payload ++ [c, c'] := ⟨_, _, checksum_eq _⟩
  have hline : bslSync :: p.frame ++ rest = bslSync :: bslSync :: p.command ::
      .ofNat 8 p.payload.length :: .ofNat 8 p.payload.length ::
        (p.payload ++ ([c, c'] ++ rest)) := by
    rw [hframe]
    simp
  have htake : (p.payload ++ ([c, c'] ++ rest)).take p.payload.length = p.payload :=
    List.take_left
  have htake' : (p.payload ++ ([c, c'] ++ rest)).take (p.payload.length + 2) =
      p.payload ++ [c, c'] := by
    rw [List.take_append]
    simp
  have hdrop : (p.payload ++ ([c, c'] ++ rest)).drop (p.payload.length + 2) = rest := by
    rw [List.drop_append]
    simp
  have hsum : checksum ([bslSync, p.command, .ofNat 8 p.payload.length,
      .ofNat 8 p.payload.length] ++ p.payload) = [bslSync, p.command, .ofNat 8 p.payload.length,
        .ofNat 8 p.payload.length] ++ (p.payload ++ [c, c']) := by
    rw [← List.append_assoc]
    exact hframe
  rw [hline, takePacket, hlen, htake, htake', hdrop, if_pos ⟨rfl, rfl, rfl, hsum⟩]

theorem line_cons (p : Packet) (ps : List Packet) :
    line (p :: ps) = bslSync :: p.frame ++ line ps := rfl

theorem takePackets_line (hn : (line ps).length ≤ n) :
    takePackets n (line ps) = some ps ↔ ∀ p ∈ ps, p.payload.length < 256 := by
  induction ps generalizing n with
  | nil => cases n <;> simp [takePackets, line]
  | cons p ps ih =>
    rw [line_cons] at hn ⊢
    cases n with
    | zero => simp at hn
    | succ n =>
      have hlen : (line ps).length ≤ n := by
        simp at hn
        omega
      rw [List.forall_mem_cons, ← ih hlen]
      by_cases hp : p.payload.length < 256
      · have hnext : ((takePackets n (line ps)).bind fun ps => some (p :: ps)) = some (p :: ps) ↔
            takePackets n (line ps) = some ps := by
          cases takePackets n (line ps) with
          | none | some => simp
        simp only [takePackets, takePacket_frame hp]
        simpa [hp] using hnext
      · refine iff_of_false (fun h => hp ?_) fun h => hp h.1
        simp only [takePackets] at h
        rw [if_neg (by simp)] at h
        obtain ⟨⟨p', rest⟩, hp', h⟩ := Option.bind_eq_some_iff.1 h
        obtain ⟨ps', -, h⟩ := Option.bind_eq_some_iff.1 h
        cases (List.cons.inj (Option.some.inj h)).1
        exact takePacket_length hp'

/-- **The receiver gets the packets back** exactly if the length of each fits in a byte. -/
theorem receive_line_iff (ps : List Packet) :
    receive (line ps) = some ps ↔ ∀ p ∈ ps, p.payload.length < 256 := takePackets_line le_rfl

/-! ## The frames of a file -/

/-- The frames that the loader has sent. -/
def Loader.frames (x : Loader) : List (List Byte) := x.sent.map Prod.fst

theorem frames_loadPcPatch (x : Loader) :
    x.loadPcPatch.frames = x.frames ++ [startPatch.frame] := by
  rw [Loader.frames, Loader.loadPcPatch, Loader.mspWrite, List.map_append]
  rfl

theorem Record.frame_packet (r : Record) : r.packet.frame = r.frame := by
  have hlen : BitVec.ofNat 8 r.packet.payload.length = r.length.value + 4 := by
    apply BitVec.eq_of_toNat_eq
    simp [Record.packet, ← r.length_eq, BitVec.toNat_add]
  rw [Packet.frame, hlen, Record.frame]
  simp [Record.packet]

variable {r : Record} {rs : List Record} {tail : List Char}

/-- The frames that the loop of `read_file` sends. -/
theorem readLines_frames (hlast : ∃ r ∈ rs, r.data = []) (h : x.input = recordsText rs ++ tail)
    (hread : readLines signed m n x = some y) :
    y.frames = x.frames ++ ((rs.takeWhile fun r => r.data ≠ []).flatMap (fun r =>
      [startPatch, r.packet]) ++ [startPatch]).map Packet.frame := by
  induction rs generalizing x n with
  | nil => simp at hlast
  | cons r rs ih =>
    cases n with
    | zero => cases hread
    | succ n =>
      rw [readLines_cons signed x h] at hread
      split at hread
      · by_cases hdata : r.data = []
        · rw [if_pos hdata] at hread
          cases Option.some.inj hread
          have hframes := frames_loadPcPatch x
          simpa [hdata, Loader.frames] using hframes
        · rw [if_neg hdata] at hread
          have hlater : ∃ r ∈ rs, r.data = [] := by simpa [hdata] using hlast
          by_cases hfits : r.Fits signed
          · rw [if_pos hfits] at hread
            have hbehind : (x.behind r (recordsText rs ++ tail)).frames =
                x.frames ++ [startPatch.frame, r.packet.frame] := by
              have hframes := frames_loadPcPatch x
              rw [Loader.frames] at hframes
              simp [Loader.frames, Loader.behind, hframes, r.frame_packet]
            rw [ih hlater rfl hread, hbehind]
            simp [hdata]
          · rw [if_neg hfits] at hread
            cases hread
      · cases hread

/-! ## Programming -/

theorem serial_append (out out' : List Output) : serial (out ++ out') = serial out ++ serial out' :=
  List.flatMap_append

theorem serial_frames (fs : List (List Byte)) :
    serial (fs.map .frame) = fs.flatMap fun f => bslSync :: f := by
  rw [serial, List.flatMap_map]

/-- The bits of the register are no bytes of the line. -/
theorem serial_cpld (regs : List Byte) : serial (regs.map .cpld) = [] := by
  induction regs with
  | nil => rfl
  | cons reg regs ih => exact ih

variable {f : HexFile} {sd : Char} {junk : ℕ → Byte} {out : List Output}

/-- The frames that `read_file` sends for a file. -/
theorem readFileOutputs_eq
    (h : readFileOutputs signed n ⟨f.text ++ tail, sd, junk, []⟩ = some out) :
    out = (([startPatch] ++ f.programmed.flatMap (fun r => [startPatch, r.packet]) ++
      [startPatch]).map Packet.frame).map .frame := by
  obtain ⟨⟨rc, y⟩, hread, rfl⟩ := Option.map_eq_some_iff.1 h
  obtain ⟨z, hlines, hz⟩ := Option.bind_eq_some_iff.1 hread
  cases Option.some.inj hz
  have hframes := readLines_frames f.exists_empty rfl hlines
  have hstart : (Loader.loadPcPatch ⟨f.text ++ tail, sd, junk, []⟩).frames =
      [startPatch.frame] := rfl
  rw [hstart] at hframes
  have hsent : y.sent.map (fun f => Output.frame f.1) = y.frames.map .frame := by
    simp [Loader.frames]
  rw [hsent, hframes]
  simp [HexFile.programmed]

theorem line_append (ps ps' : List Packet) : line (ps ++ ps') = line ps ++ line ps' :=
  List.flatMap_append

theorem serial_packets (ps : List Packet) : serial ((ps.map Packet.frame).map .frame) = line ps := by
  rw [serial_frames, List.flatMap_map, line]

/-- The outputs that prepare the chip, as frames of packets. -/
theorem serial_prepare : serial prepare = line (preparation ++ [startPatch]) := by decide +kernel

/-- **The line carries the packets of the file.** -/
theorem serial_mspload (h : mspload signed n ⟨f.text ++ tail, sd, junk, []⟩ 'w' = some out) :
    serial out = line f.packets := by
  obtain ⟨records, hrecords, rfl⟩ := Option.map_eq_some_iff.1 h
  have hend : serial (bootstrapOff ++ resetMsp) = [] := rfl
  rw [readFileOutputs_eq hrecords, List.append_assoc, serial_append, serial_append, hend,
    serial_prepare, serial_packets, List.append_nil, ← line_append]
  simp [HexFile.packets]

theorem armed_append (reg : Option Byte) (out out' : List Output) :
    Armed reg (out ++ out') ↔ Armed reg out ∧ Armed (out.foldl setCpld reg) out' := by
  induction out generalizing reg with
  | nil => simp [Armed]
  | cons o out ih =>
    cases o with
    | cpld reg' => exact ih _
    | frame bs =>
      rw [List.cons_append, Armed, Armed, ih, and_assoc]
      rfl

/-- Frames leave the register alone. -/
theorem armed_frames (fs : List (List Byte)) :
    Armed (some (pgm ||| tck ||| rstNmi)) (fs.map .frame) ∧
      (fs.map .frame).foldl setCpld (some (pgm ||| tck ||| rstNmi)) =
        some (pgm ||| tck ||| rstNmi) := by
  induction fs with
  | nil => exact ⟨trivial, rfl⟩
  | cons f fs ih => exact ⟨⟨rfl, ih.1⟩, ih.2⟩

/-- The chip is in its bootstrap loader whenever a frame is sent, and in the end it runs. -/
theorem armed_mspload (h : mspload signed n ⟨f.text ++ tail, sd, junk, []⟩ 'w' = some out) :
    Armed none out ∧ out.foldl setCpld none = some (rstNmi ||| tck) := by
  obtain ⟨records, hrecords, rfl⟩ := Option.map_eq_some_iff.1 h
  obtain rfl := readFileOutputs_eq hrecords
  obtain ⟨harmed, hkept⟩ := armed_frames (([startPatch] ++
    f.programmed.flatMap (fun r => [startPatch, r.packet]) ++ [startPatch]).map Packet.frame)
  have hbefore : prepare.foldl setCpld none = some (pgm ||| tck ||| rstNmi) := rfl
  rw [List.append_assoc, armed_append, armed_append, List.foldl_append, List.foldl_append, hbefore,
    hkept]
  refine ⟨⟨⟨?_, harmed⟩, trivial⟩, rfl⟩
  simp [prepare, bootstrapOn, eraseMem, bootstrapOff, resetMsp, passwd, loadPC, loadPATCH,
    loadPCPatch, Armed, setCpld]

/-- The chip is programmed in the end, if no record has more data than a `char` can count. -/
theorem exists_mspload (f : HexFile) (tail : List Char) (sd : Char) (junk : ℕ → Byte)
    (hfits : ∀ r ∈ f.programmed, r.Fits signed) :
    ∃ n out, mspload signed n ⟨f.text ++ tail, sd, junk, []⟩ 'w' = some out := by
  have hblocks : ∀ rs : List Record, (∀ r ∈ rs.takeWhile fun r => r.data ≠ [], r.Fits signed) →
      ∃ fs, blocks signed tail rs = some fs := by
    intro rs
    induction rs with
    | nil => exact fun _ => ⟨[], rfl⟩
    | cons r rs ih =>
      intro h
      by_cases hdata : r.data = []
      · exact ⟨[], if_pos hdata⟩
      · rw [List.takeWhile_cons_of_pos (by simpa using hdata), List.forall_mem_cons] at h
        obtain ⟨fs, hfs⟩ := ih h.2
        exact ⟨_, by rw [blocks, if_neg hdata, if_pos h.1, hfs]; rfl⟩
  obtain ⟨fs, hfs⟩ := hblocks f.all hfits
  obtain ⟨n, y, hread⟩ := readFile_ends f sd junk hfs
  refine ⟨n, _, Option.map_eq_some_iff.2 ⟨_, Option.map_eq_some_iff.2 ⟨_, hread, rfl⟩, rfl⟩⟩

/-- **What a receiver makes of the programming of a file.** Programming ends; each frame is sent to
the bootstrap loader, and in the end the chip runs; and a receiver gets the packets of the file back
exactly if no record has more than 251 bytes. -/
theorem programming_received_iff (f : HexFile) (tail : List Char) (sd : Char) (junk : ℕ → Byte)
    (hfits : ∀ r ∈ f.programmed, r.Fits signed) :
    (∃ n out, mspload signed n ⟨f.text ++ tail, sd, junk, []⟩ 'w' = some out) ∧
      ∀ n out, mspload signed n ⟨f.text ++ tail, sd, junk, []⟩ 'w' = some out →
        Armed none out ∧ out.foldl setCpld none = some (rstNmi ||| tck) ∧
          (receive (serial out) = some f.packets ↔ ∀ r ∈ f.programmed, r.data.length ≤ 251) := by
  refine ⟨exists_mspload f tail sd junk hfits, fun n out h => ?_⟩
  obtain ⟨harmed, hruns⟩ := armed_mspload h
  refine ⟨harmed, hruns, ?_⟩
  rw [serial_mspload h, receive_line_iff]
  have hpreparation : ∀ p ∈ preparation ++ [startPatch, startPatch], p.payload.length < 256 := by
    decide +kernel
  have hstart : startPatch.payload.length < 256 := by decide
  have hrecord : ∀ r : Record, r.packet.payload.length < 256 ↔ r.data.length ≤ 251 := by
    intro r
    simp only [Record.packet, List.length_append, List.length_map, List.length_cons,
      List.length_nil]
    omega
  have hmiddle : (∀ p ∈ f.programmed.flatMap fun r => [startPatch, r.packet],
      p.payload.length < 256) ↔ ∀ r ∈ f.programmed, r.data.length ≤ 251 := by
    simp only [List.mem_flatMap, List.mem_cons, List.not_mem_nil, or_false]
    refine ⟨fun h r hr => (hrecord r).1 (h _ ⟨r, hr, .inr rfl⟩), ?_⟩
    rintro h p ⟨r, hr, rfl | rfl⟩
    · exact hstart
    · exact (hrecord r).2 (h r hr)
  rw [HexFile.packets, List.forall_mem_append, List.forall_mem_append, hmiddle,
    List.forall_mem_singleton]
  exact ⟨fun h => h.1.2, fun h => ⟨⟨hpreparation, h⟩, hstart⟩⟩

theorem programming_received_start : ∃ n out,
    mspload true n ⟨startFile.text, ':', fun _ => 0, []⟩ 'w' = some out ∧
      receive (serial out) = some startFile.packets := by
  obtain ⟨⟨n, out, h⟩, hall⟩ :=
    @programming_received_iff true startFile [] ':' (fun _ => 0) (by decide)
  refine ⟨n, out, ?_, (hall n out h).2.2.2 (by decide)⟩
  rwa [List.append_nil] at h

end LiberaDaq.Msp
