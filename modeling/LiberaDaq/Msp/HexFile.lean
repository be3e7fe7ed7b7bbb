import Mathlib.Data.BitVec
import Mathlib.Data.List.Forall2
import LiberaDaq.Msp.Loader

/-!
# Files in the Intel HEX format

A `HexFile` is a file of records, with the record that ends it; the digits of its bytes may be large or
small, and anything but a colon may stand between the records. `Programmed` is what programming it
should send: one block for each data record with a valid checksum, and no other. The loader looks at
neither the type nor the checksum of a record, and takes a record without data for the end;
`programmed_iff` says which files it programs nevertheless as it should.
-/

namespace LiberaDaq.Msp

open LiberaDaq.Text LiberaDaq.Interaction

/-! ## The format -/

/-- A byte by its two digits. -/
structure HexByte where
  hi : Char
  lo : Char
  hi_isHex : isHex hi = true
  lo_isHex : isHex lo = true

def HexByte.value (b : HexByte) : Byte := .ofNat 8 (16 * hexVal b.hi + hexVal b.lo)

def HexByte.text (b : HexByte) : List Char := [b.hi, b.lo]

/-- A record, with what stands between it and the record before. -/
structure Record where
  gap : List Char
  length : HexByte
  addressH : HexByte
  addressL : HexByte
  type : HexByte
  data : List HexByte
  checksum : HexByte
  gap_free : ':' ∉ gap
  length_eq : length.value.toNat = data.length

/-- The text of bytes. -/
def bytesText (bs : List HexByte) : List Char := bs.flatMap HexByte.text

/-- The bytes of a record behind the one of its length. -/
def Record.rest (r : Record) : List HexByte :=
  r.addressH :: r.addressL :: r.type :: r.data ++ [r.checksum]

def Record.text (r : Record) : List Char :=
  r.gap ++ ':' :: (r.length.text ++ bytesText r.rest)

/-- The checksum of a record makes the sum of its bytes zero. -/
def Record.Valid (r : Record) : Prop := r.length.value + (r.rest.map HexByte.value).sum = 0

/-- A data record whose checksum is valid. -/
def Record.Good (r : Record) : Prop := r.type.value = 0 ∧ r.Valid

instance (r : Record) : Decidable r.Valid := inferInstanceAs (Decidable (_ = _))

instance (r : Record) : Decidable r.Good := inferInstanceAs (Decidable (_ ∧ _))

/-- The text of records. -/
def recordsText (rs : List Record) : List Char := rs.flatMap Record.text

/-- A file: its records, and the one that ends it. -/
structure HexFile where
  records : List Record
  last : Record
  records_type : ∀ r ∈ records, r.type.value ≠ 1
  last_type : last.type.value = 1
  last_empty : last.data = []

/-- All records of a file. -/
def HexFile.all (f : HexFile) : List Record := f.records ++ [f.last]

def HexFile.text (f : HexFile) : List Char := recordsText f.all

/-! ## The blocks -/

/-- A frame that transmits the data of a record: the layout with the numbers of bytes, the address and
the data, and its checksum. -/
def IsTxBlock (r : Record) (frame : List Byte) : Prop :=
  ∃ body, frame = body ++ [~~~xorAll (evens body), ~~~xorAll (odds body)] ∧
    body.map BitVec.toNat =
      [0x80, 0x12, r.data.length + 4, r.data.length + 4, r.addressL.value.toNat,
        r.addressH.value.toNat, r.data.length, 0] ++ r.data.map fun b => b.value.toNat

/-- The frames for programming, each with what was left of the input. -/
def txFrames (x : Loader) : List (List Byte × List Char) :=
  x.sent.filter fun f => f.1[1]? = some bslTxblk

/-- The good ones of the records, each with the text behind it. -/
def goodRecords (tail : List Char) : List Record → List (Record × List Char)
  | [] => []
  | r :: rs => (if r.Good then [(r, recordsText rs ++ tail)] else []) ++ goodRecords tail rs

/-- What is sent for a record. -/
def SentFor (sent : List Byte × List Char) (r : Record × List Char) : Prop :=
  IsTxBlock r.1 sent.1 ∧ sent.2 = r.2

/-- The records are programmed as they should: `read_file` ends, and each good record was sent in one
block when it had been read, and nothing else. -/
def Programmed (signed : Bool) (f : HexFile) (tail : List Char) (sd : Char) (junk : ℕ → Byte) :
    Prop :=
  ∃ n y, readFile signed n ⟨f.text ++ tail, sd, junk, []⟩ = some (0, y) ∧
    List.Forall₂ SentFor (txFrames y) (goodRecords tail f.all)

variable {signed : Bool} {x y : Loader} {m n k : ℕ} {s : List Char} {b : HexByte} {r : Record}

/-! ## Reading a record -/

theorem readByte_text (x : Loader) (b : HexByte) (s : List Char) (h : x.input = b.text ++ s) :
    x.readByte = (b.value, { x with input := s, streamData := .ofNat b.value.toNat }) := by
  have hscan : scanHexByte (b.text ++ s) = (some b.value, s) :=
    scanHexByte_pair b.hi_isHex b.lo_isHex s
  rw [Loader.readByte, h, hscan]

theorem readBytes_text (x : Loader) (bs : List HexByte) (s : List Char)
    (h : x.input = bytesText bs ++ s) :
    ∃ sd, x.readBytes bs.length = (bs.map HexByte.value, { x with input := s, streamData := sd }) := by
  induction bs generalizing x with
  | nil =>
    have hinput : x.input = s := h
    exact ⟨x.streamData, by rw [← hinput]; rfl⟩
  | cons b bs ih =>
    have hbyte : x.input = b.text ++ (bytesText bs ++ s) := by
      simpa [bytesText, List.append_assoc] using h
    obtain ⟨sd, hrest⟩ := ih
      { x with input := bytesText bs ++ s, streamData := .ofNat b.value.toNat } rfl
    exact ⟨sd, by simp [Loader.readBytes, readByte_text x b _ hbyte, hrest]⟩

/-- The loop that waits for the colon passes over what stands before it. -/
theorem seek_gap (x : Loader) {gap : List Char} (hgap : ':' ∉ gap) (s : List Char)
    (h : x.input = gap ++ ':' :: s) (n : ℕ) :
    seek n x = if gap.length < n then some { x with input := s, streamData := ':' } else none := by
  induction n generalizing x gap with
  | zero => simp [seek]
  | succ n ih =>
    cases gap with
    | nil =>
      have hscan : x.scanChar = { x with input := s, streamData := ':' } := by
        simp [Loader.scanChar, h]
      simp [seek, hscan]
    | cons c gap =>
      obtain ⟨hc, hrest⟩ := not_or.1 fun h => hgap (List.mem_cons.2 h)
      have hscan : x.scanChar = { x with input := gap ++ ':' :: s, streamData := c } := by
        simp [Loader.scanChar, h]
      rw [seek, hscan, if_pos (Ne.symm hc), ih _ hrest rfl]
      simp

/-- The number of data bytes is one that a `char` can count. -/
def Record.Fits (signed : Bool) (r : Record) : Prop := signed = true → r.data.length < 128

instance (signed : Bool) (r : Record) : Decidable (r.Fits signed) :=
  inferInstanceAs (Decidable (_ → _))

theorem charValue_length (signed : Bool) (r : Record) (h : r.Fits signed) :
    charValue signed r.length.value = r.data.length := by
  rw [charValue]
  cases signed with
  | false => rw [if_neg Bool.false_ne_true, r.length_eq]
  | true =>
    have hlt := h rfl
    rw [if_pos rfl, BitVec.toInt_eq_toNat_of_lt (by rw [r.length_eq]; omega), r.length_eq]

theorem charValue_neg (signed : Bool) (r : Record) (h : ¬r.Fits signed) :
    charValue signed r.length.value < 0 := by
  obtain ⟨rfl, hlong⟩ := Classical.not_imp.1 h
  have hlt := r.length.value.isLt
  have hlen := r.length_eq
  rw [charValue, if_pos rfl, BitVec.toInt_eq_toNat_cond, if_neg (by omega)]
  omega

/-- The frame that `frame_gen` makes of a record. -/
def Record.frame (r : Record) : List Byte :=
  Msp.checksum ([bslSync, bslTxblk, r.length.value + 4, r.length.value + 4, r.addressL.value,
    r.addressH.value, r.length.value, 0] ++ r.data.map HexByte.value)

theorem charValue_eq_zero_iff (signed : Bool) (r : Record) :
    charValue signed r.length.value = 0 ↔ r.data = [] := by
  by_cases hfits : r.Fits signed
  · rw [charValue_length signed r hfits]
    simp
  · have hneg := charValue_neg signed r hfits
    have hlong := (Classical.not_imp.1 hfits).2
    refine iff_of_false (by omega) fun hnil => hlong ?_
    rw [hnil]
    decide

/-- A record with data, from its length on. -/
theorem readRecord_data (signed : Bool) (x : Loader) {r : Record} (hdata : r.data ≠ [])
    (hfits : r.Fits signed) (s : List Char)
    (h : x.input = r.length.text ++ (bytesText r.rest ++ s)) :
    readRecord signed x = some (0, { x with
      input := s
      streamData := .ofNat r.checksum.value.toNat
      sent := x.sent ++ [(r.frame, s)] }) := by
  have hrest : bytesText r.rest ++ s = r.addressH.text ++ (r.addressL.text ++ (r.type.text ++
      (bytesText r.data ++ (r.checksum.text ++ s)))) := by
    simp [bytesText, Record.rest]
  rw [readRecord, readByte_text x r.length _ h]
  dsimp only
  rw [if_neg (mt (charValue_eq_zero_iff signed r).1 hdata), readByte_text _ r.addressH _ hrest]
  dsimp only
  rw [readByte_text _ r.addressL _ rfl]
  dsimp only
  rw [readByte_text _ r.type _ rfl]
  dsimp only
  rw [charValue_length signed r hfits, Int.toNat_natCast]
  obtain ⟨sd, hbytes⟩ := readBytes_text
    { x with
      input := bytesText r.data ++ (r.checksum.text ++ s)
      streamData := .ofNat r.type.value.toNat } r.data _ rfl
  rw [hbytes]
  dsimp only
  rw [readByte_text _ r.checksum _ rfl]
  dsimp only
  rw [if_neg (by omega)]
  rfl

/-- **One record.** -/
theorem readLine_text (signed : Bool) (x : Loader) (r : Record) (s : List Char)
    (h : x.input = r.text ++ s) (n : ℕ) :
    readLine signed n x =
      if r.gap.length < n then
        if r.data = [] then
          some (1, { x with input := bytesText r.rest ++ s, streamData := .ofNat 0 })
        else if r.Fits signed then
          some (0, { x with
            input := s
            streamData := .ofNat r.checksum.value.toNat
            sent := x.sent ++ [(r.frame, s)] })
        else none
      else none := by
  have hinput : x.input = r.gap ++ ':' :: (r.length.text ++ (bytesText r.rest ++ s)) := by
    simpa [Record.text] using h
  rw [readLine, seek_gap x r.gap_free _ hinput]
  by_cases hn : r.gap.length < n
  · rw [if_pos hn, if_pos hn]
    simp only [Option.bind_eq_bind, Option.bind_some]
    by_cases hdata : r.data = []
    · have hzero : r.length.value.toNat = 0 := by rw [r.length_eq, hdata, List.length_nil]
      rw [if_pos hdata, readRecord, readByte_text _ r.length (bytesText r.rest ++ s) rfl]
      dsimp only
      rw [if_pos ((charValue_eq_zero_iff signed r).2 hdata), hzero]
    · rw [if_neg hdata]
      by_cases hfits : r.Fits signed
      · rw [if_pos hfits]
        exact readRecord_data signed _ hdata hfits s rfl
      · rw [if_neg hfits, readRecord, readByte_text _ r.length (bytesText r.rest ++ s) rfl]
        dsimp only
        rw [if_neg (mt (charValue_eq_zero_iff signed r).1 hdata)]
        simp only [if_pos (charValue_neg signed r hfits)]
  · rw [if_neg hn, if_neg hn]
    rfl

/-! ## The format is unambiguous -/

theorem length_bytesText (bs : List HexByte) : (bytesText bs).length = 2 * bs.length := by
  simp [bytesText, HexByte.text, List.length_flatMap, Nat.mul_comm]

theorem append_colon_inj {gap gap' u v : List Char} (hgap : ':' ∉ gap) (hgap' : ':' ∉ gap')
    (h : gap ++ ':' :: u = gap' ++ ':' :: v) : gap = gap' ∧ u = v := by
  induction gap generalizing gap' with
  | nil =>
    cases gap' with
    | nil => exact ⟨rfl, (List.cons.inj h).2⟩
    | cons c gap' =>
      rw [← (List.cons.inj h).1] at hgap'
      exact absurd List.mem_cons_self hgap'
  | cons c gap ih =>
    cases gap' with
    | nil =>
      rw [(List.cons.inj h).1] at hgap
      exact absurd List.mem_cons_self hgap
    | cons c' gap' =>
      obtain ⟨rfl, hrest⟩ := List.cons.inj h
      obtain ⟨rfl, huv⟩ := ih (fun hm => hgap (.tail _ hm)) (fun hm => hgap' (.tail _ hm)) hrest
      exact ⟨rfl, huv⟩

/-- A record is the same in every text that begins with it. -/
theorem record_unique {r r' : Record} {u v : List Char} (h : r.text ++ u = r'.text ++ v) :
    r.type.value = r'.type.value ∧ u = v := by
  have hcolon : r.gap ++ ':' :: (r.length.text ++ (bytesText r.rest ++ u)) =
      r'.gap ++ ':' :: (r'.length.text ++ (bytesText r'.rest ++ v)) := by
    simpa [Record.text] using h
  obtain ⟨hlen, hrest⟩ := List.append_inj (append_colon_inj r.gap_free r'.gap_free hcolon).2 rfl
  simp only [HexByte.text, List.cons.injEq, and_true] at hlen
  have hvalue : r.length.value = r'.length.value := by
    rw [HexByte.value, HexByte.value, hlen.1, hlen.2]
  have hdata : r.data.length = r'.data.length := by
    rw [← r.length_eq, ← r'.length_eq, hvalue]
  obtain ⟨hbytes, huv⟩ := List.append_inj hrest (by simp [length_bytesText, Record.rest, hdata])
  simp only [bytesText, Record.rest, HexByte.text, List.cons_append, List.flatMap_cons,
    List.nil_append, List.cons.injEq] at hbytes
  obtain ⟨-, -, -, -, hhi, hlo, -⟩ := hbytes
  exact ⟨by rw [HexByte.value, HexByte.value, hhi, hlo], huv⟩

/-- **A file ends with its last record**: no file is the beginning of a longer one. -/
theorem text_unique {rs rs' : List Record} {e e' : Record} {u : List Char}
    (hrs : ∀ r ∈ rs, r.type.value ≠ 1) (hrs' : ∀ r ∈ rs', r.type.value ≠ 1)
    (he : e.type.value = 1) (he' : e'.type.value = 1)
    (h : recordsText (rs ++ [e]) ++ u = recordsText (rs' ++ [e'])) : u = [] := by
  induction rs generalizing rs' with
  | nil =>
    cases rs' with
    | nil =>
      have htext : e.text ++ u = e'.text ++ [] := by simpa [recordsText] using h
      exact (record_unique htext).2
    | cons r' rs' =>
      have htext : e.text ++ u = r'.text ++ recordsText (rs' ++ [e']) := by
        simpa [recordsText] using h
      exact absurd ((record_unique htext).1.symm.trans he) (hrs' r' List.mem_cons_self)
  | cons r rs ih =>
    obtain ⟨hr, hrest⟩ := List.forall_mem_cons.1 hrs
    cases rs' with
    | nil =>
      have htext : r.text ++ (recordsText (rs ++ [e]) ++ u) = e'.text ++ [] := by
        simpa [recordsText] using h
      exact absurd ((record_unique htext).1.trans he') hr
    | cons r' rs' =>
      have htext : r.text ++ (recordsText (rs ++ [e]) ++ u) =
          r'.text ++ recordsText (rs' ++ [e']) := by
        simpa [recordsText] using h
      exact ih hrest (List.forall_mem_cons.1 hrs').2 (record_unique htext).2

/-! ## The frame of a record -/

theorem frame_eq (r : Record) : ∃ body, r.frame = body ++ [~~~xorAll (evens body),
    ~~~xorAll (odds body)] ∧ body = [bslSync, bslTxblk, r.length.value + 4, r.length.value + 4,
      r.addressL.value, r.addressH.value, r.length.value, 0] ++ r.data.map HexByte.value :=
  ⟨_, checksum_eq _, rfl⟩

/-- The frame of a record has its layout unless the length field overflows. -/
theorem isTxBlock_frame (r : Record) : IsTxBlock r r.frame ↔ r.data.length ≤ 251 := by
  obtain ⟨body, hframe, hbody⟩ := frame_eq r
  have hlen := r.length_eq
  have hmap : body.map BitVec.toNat = [0x80, 0x12, (r.data.length + 4) % 256,
      (r.data.length + 4) % 256, r.addressL.value.toNat, r.addressH.value.toNat, r.data.length, 0] ++
        r.data.map fun b => b.value.toNat := by
    simp [hbody, bslSync, bslTxblk, BitVec.toNat_add, hlen, Function.comp_def]
  constructor
  · rintro ⟨body', hframe', hmap'⟩
    have hsame : body = body' := (List.append_inj' (hframe.symm.trans hframe') rfl).1
    rw [← hsame, hmap] at hmap'
    simp only [List.cons_append, List.cons.injEq] at hmap'
    omega
  · intro hle
    refine ⟨body, hframe, ?_⟩
    rw [hmap, Nat.mod_eq_of_lt (by omega)]

theorem frame_command (r : Record) : r.frame[1]? = some bslTxblk := by
  obtain ⟨body, hframe, rfl⟩ := frame_eq r
  simp [hframe]

/-- A frame more is sent. -/
theorem txFrames_concat {f : List Byte × List Char} (h : y.sent = x.sent ++ [f]) :
    txFrames y = txFrames x ++ if f.1[1]? = some bslTxblk then [f] else [] := by
  simp [txFrames, h, List.filter_cons]

theorem txFrames_loadPcPatch (x : Loader) : txFrames x.loadPcPatch = txFrames x := by
  have hcommand : (checksum [bslSync, bslLoadpc, 4, 4, 0x20, 0x02, 0, 0])[1]? ≠ some bslTxblk := by
    decide
  rw [txFrames_concat rfl, if_neg hcommand, List.append_nil]

/-! ## The records of a file -/

/-- The blocks that are sent for records, up to one without data; `none` if one of them has more data
than a `char` can count. -/
def blocks (signed : Bool) (tail : List Char) : List Record → Option (List (List Byte × List Char))
  | [] => some []
  | r :: rs =>
    if r.data = [] then some []
    else if r.Fits signed then
      (blocks signed tail rs).map fun fs => (r.frame, recordsText rs ++ tail) :: fs
    else none

variable {rs : List Record} {tail : List Char} {fs : List (List Byte × List Char)}

theorem recordsText_cons (r : Record) (rs : List Record) (tail : List Char) :
    recordsText (r :: rs) ++ tail = r.text ++ (recordsText rs ++ tail) := by
  simp [recordsText]

/-- The loader behind a record that it sent. -/
def Loader.behind (x : Loader) (r : Record) (s : List Char) : Loader :=
  { x.loadPcPatch with
    input := s
    streamData := .ofNat r.checksum.value.toNat
    sent := x.loadPcPatch.sent ++ [(r.frame, s)] }

theorem txFrames_behind (x : Loader) (r : Record) (s : List Char) :
    txFrames (x.behind r s) = txFrames x ++ [(r.frame, s)] := by
  rw [txFrames_concat (x := x.loadPcPatch) rfl, if_pos (frame_command r), txFrames_loadPcPatch]

/-- One turn of the loop of `read_file`. -/
theorem readLines_cons (signed : Bool) (x : Loader) (h : x.input = recordsText (r :: rs) ++ tail)
    (m n : ℕ) : readLines signed m (n + 1) x =
      if r.gap.length < m then
        if r.data = [] then
          some { x.loadPcPatch with
            input := bytesText r.rest ++ (recordsText rs ++ tail)
            streamData := .ofNat 0 }
        else if r.Fits signed then
          readLines signed m n (x.behind r (recordsText rs ++ tail))
        else none
      else none := by
  rw [recordsText_cons] at h
  rw [readLines, readLine_text signed x.loadPcPatch r _ h]
  by_cases hm : r.gap.length < m
  · rw [if_pos hm, if_pos hm]
    by_cases hdata : r.data = []
    · rw [if_pos hdata, if_pos hdata]
      rfl
    · rw [if_neg hdata, if_neg hdata]
      by_cases hfits : r.Fits signed
      · rw [if_pos hfits, if_pos hfits]
        rfl
      · rw [if_neg hfits, if_neg hfits]
        rfl
  · rw [if_neg hm, if_neg hm]
    rfl

/-- When the loop of `read_file` ends it has sent the blocks of the records. -/
theorem readLines_blocks (hlast : ∃ r ∈ rs, r.data = []) (h : x.input = recordsText rs ++ tail)
    (hread : readLines signed m n x = some y) :
    ∃ fs, blocks signed tail rs = some fs ∧ txFrames y = txFrames x ++ fs := by
  induction rs generalizing x n with
  | nil => simp at hlast
  | cons r rs ih =>
    cases n with
    | zero => cases hread
    | succ n =>
      rw [readLines_cons signed x h] at hread
      split at hread
      · by_cases hdata : r.data = []
        · rw [if_pos hdata] at hread
          cases Option.some.inj hread
          refine ⟨[], by simp [blocks, hdata], ?_⟩
          rw [List.append_nil]
          exact txFrames_loadPcPatch x
        · rw [if_neg hdata] at hread
          have hlater : ∃ r ∈ rs, r.data = [] := by simpa [hdata] using hlast
          by_cases hfits : r.Fits signed
          · rw [if_pos hfits] at hread
            obtain ⟨fs, hblocks, hsent⟩ := ih hlater rfl hread
            refine ⟨(r.frame, recordsText rs ++ tail) :: fs, by
              simp [blocks, hdata, hfits, hblocks], ?_⟩
            rw [hsent, txFrames_behind, List.append_assoc]
            rfl
          · rw [if_neg hfits] at hread
            cases hread
      · cases hread

/-- The loop of `read_file` ends at the record without data, unless a record has more data than a
`char` can count. -/
theorem readLines_ends (hlast : ∃ r ∈ rs, r.data = []) (h : x.input = recordsText rs ++ tail)
    (hblocks : blocks signed tail rs = some fs) :
    ∃ k, ∀ m n, k ≤ m → k ≤ n → ∃ y, readLines signed m n x = some y := by
  induction rs generalizing x fs with
  | nil => simp at hlast
  | cons r rs ih =>
    by_cases hdata : r.data = []
    · refine ⟨r.gap.length + 1, fun m n hm hn => ?_⟩
      obtain ⟨n, rfl⟩ := Nat.exists_eq_succ_of_ne_zero (by omega : n ≠ 0)
      rw [readLines_cons signed x h, if_pos (by omega), if_pos hdata]
      exact ⟨_, rfl⟩
    · have hlater : ∃ r ∈ rs, r.data = [] := by simpa [hdata] using hlast
      rw [blocks, if_neg hdata] at hblocks
      by_cases hfits : r.Fits signed
      · rw [if_pos hfits] at hblocks
        obtain ⟨fs', hblocks, -⟩ := Option.map_eq_some_iff.1 hblocks
        obtain ⟨k, hk⟩ := ih (x := x.behind r (recordsText rs ++ tail)) hlater rfl hblocks
        refine ⟨max (r.gap.length + 1) (k + 1), fun m n hm hn => ?_⟩
        obtain ⟨n, rfl⟩ := Nat.exists_eq_succ_of_ne_zero (by omega : n ≠ 0)
        rw [readLines_cons signed x h, if_pos (by omega), if_neg hdata, if_pos hfits]
        exact hk m n (by omega) (by omega)
      · rw [if_neg hfits] at hblocks
        cases hblocks

theorem HexFile.exists_empty (f : HexFile) : ∃ r ∈ f.all, r.data = [] :=
  ⟨f.last, by simp [HexFile.all], f.last_empty⟩

theorem readFile_blocks (f : HexFile) (sd : Char) (junk : ℕ → Byte)
    (h : readFile signed n ⟨f.text ++ tail, sd, junk, []⟩ = some (0, y)) :
    blocks signed tail f.all = some (txFrames y) := by
  obtain ⟨z, hread, hz⟩ := Option.bind_eq_some_iff.1 h
  cases Option.some.inj hz
  obtain ⟨fs, hblocks, hsent⟩ := readLines_blocks f.exists_empty rfl hread
  rw [txFrames_loadPcPatch] at hsent
  rw [hblocks, hsent]
  rfl

/-- **A file is read to its end.** -/
theorem readFile_ends (f : HexFile) (sd : Char) (junk : ℕ → Byte)
    (h : blocks signed tail f.all = some fs) :
    ∃ n y, readFile signed n ⟨f.text ++ tail, sd, junk, []⟩ = some (0, y) := by
  obtain ⟨k, hk⟩ := readLines_ends
    (x := Loader.loadPcPatch ⟨f.text ++ tail, sd, junk, []⟩) f.exists_empty rfl h
  obtain ⟨y, hread⟩ := hk k k le_rfl le_rfl
  exact ⟨k, y, Option.bind_eq_some_iff.2 ⟨y, hread, rfl⟩⟩

/-! ## Which files are programmed as they should -/

/-- The records up to the first one without data are good and not too long, and no later one is
good. -/
def Plain (signed : Bool) (rs : List Record) : Prop :=
  (∀ r ∈ rs.takeWhile fun r => r.data ≠ [], r.Good ∧ r.data.length ≤ 251 ∧ r.Fits signed) ∧
    ∀ r ∈ rs.dropWhile fun r => r.data ≠ [], ¬r.Good

/-- The text behind a record is shorter than the text from a record before it on. -/
theorem goodRecords_length (tail : List Char) (rs : List Record) :
    ∀ p ∈ goodRecords tail rs, p.2.length < (recordsText rs ++ tail).length := by
  induction rs with
  | nil => simp [goodRecords]
  | cons r rs ih =>
    intro p hp
    rw [recordsText_cons, List.length_append]
    have hpos : 0 < r.text.length := by
      rw [Record.text, List.length_append, List.length_cons]
      omega
    rw [goodRecords, List.mem_append] at hp
    rcases hp with hp | hp
    · split at hp
      · obtain rfl := List.mem_singleton.1 hp
        dsimp only
        omega
      · cases hp
    · have hlater := ih p hp
      omega

theorem goodRecords_eq_nil : goodRecords tail rs = [] ↔ ∀ r ∈ rs, ¬r.Good := by
  induction rs with
  | nil => simp [goodRecords]
  | cons r rs ih =>
    rw [goodRecords, List.append_eq_nil_iff, ih, List.forall_mem_cons]
    refine and_congr_left fun _ => ?_
    by_cases hgood : r.Good <;> simp [hgood]

theorem plain_cons (hdata : r.data ≠ []) : Plain signed (r :: rs) ↔
    (r.Good ∧ r.data.length ≤ 251 ∧ r.Fits signed) ∧ Plain signed rs := by
  simp [Plain, hdata, and_assoc]

/-- The blocks are those of the good records if and only if the file is plain. -/
theorem blocks_iff : (∃ fs, blocks signed tail rs = some fs ∧
    List.Forall₂ SentFor fs (goodRecords tail rs)) ↔ Plain signed rs := by
  induction rs with
  | nil => simp [blocks, goodRecords, Plain]
  | cons r rs ih =>
    by_cases hdata : r.data = []
    · have hnone : Plain signed (r :: rs) ↔ goodRecords tail (r :: rs) = [] := by
        rw [goodRecords_eq_nil]
        simp [Plain, hdata]
      rw [hnone, blocks, if_pos hdata]
      simp
    · rw [plain_cons hdata, ← ih, blocks, if_neg hdata]
      by_cases hfits : r.Fits signed
      · rw [if_pos hfits]
        by_cases hgood : r.Good
        · have hlist : goodRecords tail (r :: rs) =
              (r, recordsText rs ++ tail) :: goodRecords tail rs := by
            simp [goodRecords, hgood]
          rw [hlist]
          simp only [Option.map_eq_some_iff, hgood, hfits, true_and, and_true]
          constructor
          · rintro ⟨_, ⟨fs, hblocks, rfl⟩, hall⟩
            obtain ⟨⟨hframe, -⟩, hrest⟩ := List.forall₂_cons.1 hall
            exact ⟨(isTxBlock_frame r).1 hframe, fs, hblocks, hrest⟩
          · rintro ⟨hlen, fs, hblocks, hrest⟩
            exact ⟨_, ⟨fs, hblocks, rfl⟩, .cons ⟨(isTxBlock_frame r).2 hlen, rfl⟩ hrest⟩
        · -- what is sent for it cannot be what is sent for a later one
          have hlist : goodRecords tail (r :: rs) = goodRecords tail rs := by
            simp [goodRecords, hgood]
          rw [hlist]
          simp only [hgood, false_and, iff_false]
          rintro ⟨_, h, hall⟩
          obtain ⟨fs, hblocks, rfl⟩ := Option.map_eq_some_iff.1 h
          cases hlater : goodRecords tail rs with
          | nil =>
            rw [hlater] at hall
            cases hall
          | cons p ps =>
            have hlt := goodRecords_length tail rs p (by rw [hlater]; exact List.mem_cons_self)
            rw [hlater] at hall
            obtain ⟨⟨-, hrest⟩, -⟩ := List.forall₂_cons.1 hall
            rw [← hrest] at hlt
            exact absurd hlt (Nat.lt_irrefl _)
      · rw [if_neg hfits]
        simp [hfits]

/-! ## Programming a file -/

/-- **Programming a file.** The blocks that `read_file` sends are, in their order, those of the data
records with a valid checksum, if and only if every record up to the first one without data is such a
record, with at most `251` data bytes and no more than a `char` can count, and no later one is. -/
theorem programmed_iff (signed : Bool) (f : HexFile) (tail : List Char) (sd : Char)
    (junk : ℕ → Byte) : Programmed signed f tail sd junk ↔ Plain signed f.all := by
  rw [← blocks_iff, Programmed]
  constructor
  · rintro ⟨n, y, hread, hall⟩
    exact ⟨txFrames y, readFile_blocks f sd junk hread, hall⟩
  · rintro ⟨fs, hblocks, hall⟩
    obtain ⟨n, y, hread⟩ := readFile_ends f sd junk hblocks
    refine ⟨n, y, hread, ?_⟩
    rw [readFile_blocks f sd junk hread] at hblocks
    rwa [Option.some.inj hblocks]

/-- `:040000030000E00019`, which gives the address where the program starts. -/
def startRecord : Record where
  gap := []
  length := ⟨'0', '4', rfl, rfl⟩
  addressH := ⟨'0', '0', rfl, rfl⟩
  addressL := ⟨'0', '0', rfl, rfl⟩
  type := ⟨'0', '3', rfl, rfl⟩
  data := [⟨'0', '0', rfl, rfl⟩, ⟨'0', '0', rfl, rfl⟩, ⟨'E', '0', rfl, rfl⟩, ⟨'0', '0', rfl, rfl⟩]
  checksum := ⟨'1', '9', rfl, rfl⟩
  gap_free := List.not_mem_nil
  length_eq := rfl

theorem newline_free : ':' ∉ ['\n'] := by decide

/-- `:00000001FF`. -/
def endRecord : Record where
  gap := ['\n']
  length := ⟨'0', '0', rfl, rfl⟩
  addressH := ⟨'0', '0', rfl, rfl⟩
  addressL := ⟨'0', '0', rfl, rfl⟩
  type := ⟨'0', '1', rfl, rfl⟩
  data := []
  checksum := ⟨'F', 'F', rfl, rfl⟩
  gap_free := newline_free
  length_eq := rfl

theorem startRecord_type : ∀ r ∈ [startRecord], r.type.value ≠ 1 := by decide

/-- The file of the two records. -/
def startFile : HexFile where
  records := [startRecord]
  last := endRecord
  records_type := startRecord_type
  last_type := rfl
  last_empty := rfl

/-- The start address is programmed like data. -/
theorem start_address_programmed :
    ¬∀ signed f tail sd junk, Programmed signed f tail sd junk := by
  intro h
  obtain ⟨n, y, hread, hall⟩ := h false startFile [] ':' fun _ => 0
  have hplain : Plain false [startRecord, endRecord] :=
    blocks_iff.1 ⟨_, readFile_blocks startFile _ _ hread, hall⟩
  have hgood := ((plain_cons (by simp [startRecord])).1 hplain).1.1
  revert hgood
  decide

end LiberaDaq.Msp
