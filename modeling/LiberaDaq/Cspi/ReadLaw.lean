import LiberaDaq.Cspi.Extent
import LiberaDaq.Cspi.ReadCalls

/-!
# The law of the codes of cspi_read

`ReadLaw` is what a client may conclude from the code of `cspi_read`: whether all atoms were read
and transformed, whether a step failed, how many atoms are in its buffer, and that no memory is
lost. `Regular` are the reads of which it is true. Of the others a routine loses a code or a buffer:
the refresh of `custom_getdefaultop` is not looked at, the code of a short read into an own buffer
is overwritten by that of the refresh, a refresh that fails leaves this buffer behind, and an
average is given without the atom that was asked for.

The routines are treated one by one (`lawful_dd`, `lawful_adc`, `lawful_average`, ...), under any
answers to their calls; `read_lawful_iff` says it of the library, and that the library returns.
-/

namespace LiberaDaq.Cspi

open LiberaDaq.Interaction Prog

variable {tf : Transform} {l l' : Lib} {p : ℕ} {c : Connection} {f : File} {dest : Buffer}
  {count n₀ : Word} {mode : Mode} {t : List ReadEvent} {res : ReadResult}

/-! ## The law -/

/-- A step fails: a system call, the allocation of a buffer or the refresh. -/
@[simp] def ReadEvent.Fails : ReadEvent → Prop
  | ⟨.initop, rc⟩ | ⟨.seek, rc⟩ => rc ≠ cspiOk
  | ⟨.calloc, ok⟩ | ⟨.stamp _, ok⟩ => ok = false
  | ⟨.read _ _ _, r⟩ => r = none
  | ⟨.average, r⟩ => r.1 ≠ cspiOk
  | _ => False

/-- The whole atoms that a call gives. -/
@[simp] def ReadEvent.atoms : ReadEvent → ℕ
  | ⟨.read _ kind _, some r⟩ => r.bytes / kind.size
  | _ => 0

/-- `*nread` after a call. -/
@[simp] def ReadEvent.store (n : Word) : ReadEvent → Word
  | ⟨.nread n', _⟩ => n'
  | _ => n

@[simp] def ReadEvent.Callocs : ReadEvent → Prop
  | ⟨.calloc, ok⟩ => ok = true
  | _ => False

@[simp] def ReadEvent.Frees : ReadEvent → Prop
  | ⟨.free, _⟩ => True
  | _ => False

/-- An operator takes so many atoms. -/
@[simp] def ReadEvent.Applies (n : ℕ) : ReadEvent → Prop
  | ⟨.apply _ _ n', _⟩ => n' = n
  | _ => False

/-- A call of a kind was made. -/
def Happens (P : ReadEvent → Prop) (t : List ReadEvent) : Prop := ∃ e ∈ t, P e

@[simp] theorem happens_nil {P : ReadEvent → Prop} : ¬Happens P [] := by simp [Happens]

@[simp] theorem happens_cons {P : ReadEvent → Prop} {e : ReadEvent} :
    Happens P (e :: t) ↔ P e ∨ Happens P t := List.exists_mem_cons_iff ..

/-- A step of a read fails. -/
abbrev ReadFails (t : List ReadEvent) : Prop := Happens ReadEvent.Fails t

/-- The number of atoms that were read. -/
@[simp] def atomsGiven (t : List ReadEvent) : ℕ := (t.map ReadEvent.atoms).sum

/-- `*nread` at the end, from what it was before. -/
@[simp] def nreadAfter (n₀ : Word) (t : List ReadEvent) : Word := t.foldl ReadEvent.store n₀

/-- The law of the codes of `cspi_read`, for a count of atoms, what `*nread` was before, what
happened, and what it gave back. -/
@[mk_iff] structure ReadLaw (mode : Mode) (count n₀ : Word) (t : List ReadEvent)
    (res : ReadResult) : Prop where
  read : res.rc = cspiOk → count.toNat ≤ atomsGiven t
  processed : res.rc = cspiOk → mode ≠ .adc → mode ≠ .average →
    Happens (ReadEvent.Applies count.toNat) t
  incomplete : res.rc = cspiWIncomplete ↔ ¬ReadFails t ∧ atomsGiven t < count.toNat
  error : res.rc < 0 ↔ ReadFails t
  nread : (nreadAfter n₀ t).toNat = res.data.length
  released : Happens ReadEvent.Callocs t → Happens ReadEvent.Frees t

/-! ## Where it holds -/

/-- The refresh has a positive code. -/
@[simp] def ReadEvent.Warns : ReadEvent → Prop
  | ⟨.initop, rc⟩ => 0 < rc
  | _ => False

/-- The refresh fails. -/
@[simp] def ReadEvent.Stale : ReadEvent → Prop
  | ⟨.initop, rc⟩ => rc ≠ cspiOk
  | _ => False

/-- There is no memory, or the device gives no data or no time stamp. -/
@[simp] def ReadEvent.Unread : ReadEvent → Prop
  | ⟨.calloc, ok⟩ | ⟨.stamp _, ok⟩ => ok = false
  | ⟨.read _ _ _, r⟩ => r = none
  | _ => False

/-- The device gives all bytes that it was asked for, and these are not those of the count. -/
@[simp] def ReadEvent.Wraps (count : Word) : ReadEvent → Prop
  | ⟨.read _ kind n, some r⟩ => r.bytes = n.toNat ∧ n.toNat ≠ count.toNat * kind.size
  | _ => False

/-- Spikes are to be removed. -/
@[simp] def ReadEvent.Spiked : ReadEvent → Prop
  | ⟨.spikes, b⟩ => b = true
  | _ => False

/-- What happens but for the refresh of `custom_getdefaultop`. -/
@[simp] def afterDefault (mode : Mode) (t : List ReadEvent) : List ReadEvent :=
  if mode = .dd then t.tail else t

/-- The mode reads into a buffer of its own, for an operator. -/
def Mode.Buffered (mode : Mode) : Prop := mode = .adcCw ∨ mode = .adcSp ∨ mode = .adcSpRot

/-- The reads that the law is true of. -/
@[mk_iff] structure Regular (mode : Mode) (count n₀ : Word) (t : List ReadEvent) : Prop where
  /-- Not the refresh of `custom_getdefaultop` alone fails. -/
  default : ReadFails t → ReadFails (afterDefault mode t)
  /-- A refresh that fails has a negative code. -/
  code : ¬Happens ReadEvent.Warns (afterDefault mode t)
  /-- No refresh fails while there is an own buffer. -/
  fresh : mode.Buffered → ¬Happens ReadEvent.Stale t
  /-- Where a short read has no code of its own the read is not short. -/
  full : mode.Buffered ∨ mode = .average → ¬ReadFails t → count.toNat ≤ atomsGiven t
  /-- The number of bytes is not reduced in the arithmetic of `size_t`. -/
  whole : mode = .adc → ¬Happens (ReadEvent.Wraps count) t
  /-- `*nread` is right already where it is not assigned. -/
  early : mode ≠ .average → Happens ReadEvent.Unread t → n₀.toNat = atomsGiven t
  /-- An operator that begins with an atom has one. -/
  first : mode = .adcCw ∨ Happens ReadEvent.Spiked t → ¬ReadFails (afterDefault mode t) →
    0 < atomsGiven t

/-! ## The law in each mode -/

theorem length_whole {n : ℕ} (r : Received n) (kind : AtomKind) :
    (r.whole kind).length = r.bytes / kind.size := by
  rw [Received.whole, List.length_map, List.length_range]

theorem length_atoms (op : Operator) (members : ℕ → List Word) (n : ℕ) :
    (op.atoms members n).length = op.extent n := by
  rw [Operator.atoms, List.length_map, List.length_range]

/-- A number of atoms that were read fits in `*nread`. -/
theorem toNat_received {kind : AtomKind} (r : Received (nbytes count kind).toNat) :
    (BitVec.ofNat 32 (r.bytes / kind.size)).toNat = r.bytes / kind.size := by
  rw [BitVec.toNat_ofNat]
  exact Nat.mod_eq_of_lt ((received_le r).trans_lt count.isLt)

/-- The law of a read with a step that fails. -/
theorem readLaw_fails (hf : ReadFails t) : ReadLaw mode count n₀ t res ↔ res.rc < 0 ∧
    (nreadAfter n₀ t).toNat = res.data.length ∧
    (Happens ReadEvent.Callocs t → Happens ReadEvent.Frees t) := by
  refine ⟨fun hl => ⟨hl.error.2 hf, hl.nread, hl.released⟩, fun ⟨h, hn, hr⟩ => ?_⟩
  have hok : res.rc ≠ cspiOk := h.ne
  have hw : res.rc ≠ cspiWIncomplete := fun hw => absurd (hw ▸ h) (by decide)
  exact ⟨fun h => absurd h hok, fun h => absurd h hok, iff_of_false hw fun hx => hx.1 hf,
    iff_of_true h hf, hn, hr⟩

/-- The law of a read with the code of success. -/
theorem readLaw_ok (h : res.rc = cspiOk) : ReadLaw mode count n₀ t res ↔ ¬ReadFails t ∧
    count.toNat ≤ atomsGiven t ∧
    (mode ≠ .adc → mode ≠ .average → Happens (ReadEvent.Applies count.toNat) t) ∧
    (nreadAfter n₀ t).toNat = res.data.length ∧
    (Happens ReadEvent.Callocs t → Happens ReadEvent.Frees t) := by
  have hw : res.rc ≠ cspiWIncomplete := by rw [h]; decide
  have hneg : ¬res.rc < 0 := by rw [h]; decide
  refine ⟨fun hl => ⟨fun hf => hneg (hl.error.2 hf), hl.read h, hl.processed h, hl.nread,
    hl.released⟩, fun ⟨hf, hc, hp, hn, hr⟩ => ?_⟩
  exact ⟨fun _ => hc, fun _ => hp, iff_of_false hw fun hx => hx.2.not_ge hc,
    iff_of_false hneg hf, hn, hr⟩

/-- The law of a read with the code of a short one. -/
theorem readLaw_incomplete (h : res.rc = cspiWIncomplete) : ReadLaw mode count n₀ t res ↔
    ¬ReadFails t ∧ atomsGiven t < count.toNat ∧ (nreadAfter n₀ t).toNat = res.data.length ∧
      (Happens ReadEvent.Callocs t → Happens ReadEvent.Frees t) := by
  have hok : res.rc ≠ cspiOk := by rw [h]; decide
  have hneg : ¬res.rc < 0 := by rw [h]; decide
  refine ⟨fun hl => ⟨(hl.incomplete.1 h).1, (hl.incomplete.1 h).2, hl.nread, hl.released⟩,
    fun ⟨hf, hc, hn, hr⟩ => ?_⟩
  exact ⟨fun h => absurd h hok, fun h => absurd h hok, iff_of_true h ⟨hf, hc⟩,
    iff_of_false hneg hf, hn, hr⟩

theorem lawful_pm (h : DdRead .pm count .transformDd t res) :
    ReadLaw .pm count n₀ t res ↔ Regular .pm count n₀ t := by
  cases h with
  | refused =>
    rw [readLaw_fails (by simp)]
    simp [regular_iff, Mode.Buffered, cspiESystem]
  | unstamped r =>
    rw [readLaw_fails (by simp)]
    simp [regular_iff, Mode.Buffered, length_whole, cspiESystem]
  | stale r rc hrc =>
    rw [readLaw_fails (by simp [hrc])]
    simp [regular_iff, Mode.Buffered, length_whole, hrc, -BitVec.toNat_ofNat, toNat_received,
      hrc.le_iff_lt]
  | done r members =>
    by_cases hfull : r.bytes / AtomKind.dd.size = count.toNat
    · rw [readLaw_ok (by simp [hfull])]
      simp [regular_iff, Mode.Buffered, hfull, length_atoms, Operator.extent]
    · have hlt := lt_of_le_of_ne (received_le r) hfull
      rw [readLaw_incomplete (by simp [hfull])]
      simp [regular_iff, Mode.Buffered, length_atoms, Operator.extent, -BitVec.toNat_ofNat,
        toNat_received, hlt]

/-- Removing spikes begins with an atom. -/
theorem extent_dd (b : Bool) (n : ℕ) :
    n = (if b then Operator.transformDdRemoveSpikes else .transformDd).extent n ↔
      (b = true → 0 < n) := by
  cases b with
  | false => simp [Operator.extent]
  | true => simp [Operator.extent, Nat.one_le_iff_ne_zero, Nat.pos_iff_ne_zero]

theorem lawful_dd {rc₀ : ℤ} {b : Bool} (h : DdRead .dd count
    (if b then .transformDdRemoveSpikes else .transformDd) t res) :
    ReadLaw .dd count n₀ (⟨.initop, rc₀⟩ :: ⟨.spikes, b⟩ :: t) res ↔
      Regular .dd count n₀ (⟨.initop, rc₀⟩ :: ⟨.spikes, b⟩ :: t) := by
  cases h with
  | refused =>
    rw [readLaw_fails (by simp)]
    simp [regular_iff, Mode.Buffered, cspiESystem]
  | unstamped r =>
    rw [readLaw_fails (by simp)]
    simp [regular_iff, Mode.Buffered, length_whole, cspiESystem]
  | stale r rc hrc =>
    rw [readLaw_fails (by simp [hrc])]
    simp [regular_iff, Mode.Buffered, length_whole, hrc, -BitVec.toNat_ofNat, toNat_received,
      hrc.le_iff_lt]
  | done r members =>
    by_cases hfull : r.bytes / AtomKind.dd.size = count.toNat
    · rw [readLaw_ok (by simp [hfull])]
      simp [regular_iff, Mode.Buffered, hfull, length_atoms, extent_dd]
    · have hlt := lt_of_le_of_ne (received_le r) hfull
      rw [readLaw_incomplete (by simp [hfull])]
      simp [regular_iff, Mode.Buffered, length_atoms, extent_dd, -BitVec.toNat_ofNat,
        toNat_received, hlt, -Nat.div_pos_iff]

theorem lawful_adc (h : AdcRead count t res) :
    ReadLaw .adc count n₀ t res ↔ Regular .adc count n₀ t := by
  have hle : (nbytes count .adc).toNat ≤ count.toNat * 8 := nbytes_le count .adc
  cases h with
  | refused =>
    rw [readLaw_fails (by simp)]
    simp [regular_iff, Mode.Buffered, cspiESystem]
  | done r =>
    by_cases hbytes : r.bytes = (nbytes count .adc).toNat
    · -- all bytes were given: those of the count, or what `size_t` leaves of them
      have hfull : count.toNat ≤ (nbytes count .adc).toNat / AtomKind.adc.size ↔
          (nbytes count .adc).toNat = count.toNat * AtomKind.adc.size := by
        simp only [AtomKind.size]
        omega
      have hn := toNat_received r
      rw [hbytes] at hn
      rw [readLaw_ok (by simp [hbytes])]
      simp [regular_iff, Mode.Buffered, length_whole, -BitVec.toNat_ofNat, hbytes, hn, hfull]
    · have hlt : r.bytes / AtomKind.adc.size < count.toNat := by
        have hmore := r.le
        simp only [AtomKind.size]
        omega
      rw [readLaw_incomplete (by simp [hbytes])]
      simp [regular_iff, Mode.Buffered, length_whole, -BitVec.toNat_ofNat, toNat_received, hbytes,
        hlt]

theorem lawful_transformed {op : Operator} (hm : mode.Buffered) (hop : op.Of mode)
    (h : AdcTransformed mode count op t res) :
    ReadLaw mode count n₀ t res ↔ Regular mode count n₀ t := by
  have hmode : mode ≠ .dd ∧ mode ≠ .adc ∧ mode ≠ .average := by
    rcases hm with rfl | rfl | rfl <;> decide
  obtain ⟨hdd, hadc, havg⟩ := hmode
  cases h with
  | full =>
    rw [readLaw_fails (by simp)]
    simp [regular_iff, cspiEMalloc, hdd, havg]
  | refused =>
    rw [readLaw_fails (by simp)]
    simp [regular_iff, cspiESystem, hdd, havg]
  | stale r rc hrc =>
    rw [readLaw_fails (by simp [hrc])]
    simp [regular_iff, hrc, hm]
  | many r members hsp =>
    obtain rfl : mode = .adcCw := hm.resolve_right hsp
    have hext : op.extent = max 1 := by
      cases op <;> simp [Operator.Of] at hop
      rfl
    rw [readLaw_ok rfl]
    by_cases hfull : r.bytes / AtomKind.adc.size = count.toNat
    · simp [regular_iff, hm, hfull, length_atoms, hext, Nat.one_le_iff_ne_zero,
        Nat.pos_iff_ne_zero]
    · have hlt := (lt_of_le_of_ne (received_le r) hfull).not_ge
      simp [regular_iff, hm, hlt]
  | one r members hsp =>
    have hext : ∀ n, op.extent n = 1 := by
      rcases hsp with rfl | rfl <;> cases op <;> simp [Operator.Of, Operator.extent] at hop ⊢
    have hcw : mode ≠ .adcCw := by rcases hsp with rfl | rfl <;> decide
    rw [readLaw_ok rfl]
    by_cases hfull : r.bytes / AtomKind.adc.size = count.toNat
    · simp [regular_iff, hm, hfull, length_atoms, hdd, hadc, hcw, hext]
    · have hlt := (lt_of_le_of_ne (received_le r) hfull).not_ge
      simp [regular_iff, hm, hlt]

/-- Neither a search nor a query for parameters has a positive code. -/
@[simp] def ReadEvent.Coded : ReadEvent → Prop
  | ⟨.seek, rc⟩ => rc ≤ 0
  | ⟨.average, r⟩ => r.1 ≤ 0
  | _ => True

theorem lawful_average (hcode : ∀ e ∈ t, e.Coded) (h : AvgRead t res) :
    ReadLaw .average count n₀ t res ↔ Regular .average count n₀ t := by
  cases h with
  | unsought rc hrc =>
    have hneg : rc < 0 := hrc.le_iff_lt.1 (hcode ⟨.seek, rc⟩ (by simp))
    rw [readLaw_fails (by simp [hrc])]
    simp [regular_iff, Mode.Buffered, hrc, hneg]
  | refused =>
    rw [readLaw_fails (by simp)]
    simp [regular_iff, Mode.Buffered, cspiESystem]
  | unstamped r =>
    rw [readLaw_fails (by simp)]
    simp [regular_iff, Mode.Buffered, cspiESystem]
  | unknown r rc sum hrc =>
    have hneg : rc < 0 := hrc.le_iff_lt.1 (hcode ⟨.average, (rc, sum)⟩ (by simp))
    rw [readLaw_fails (by simp [hrc])]
    simp [regular_iff, Mode.Buffered, hrc, hneg]
  | done r sum =>
    rw [readLaw_ok rfl]
    simp [regular_iff, Mode.Buffered]

/-- The modes of operation that are not streams. -/
def Mode.NonStreaming (mode : Mode) : Prop := mode ≠ .sa ∧ mode ≠ .unknown

/-- The law is true of exactly the regular reads, whatever each call gives. -/
theorem cspiRead_lawful (hm : mode.NonStreaming) (hcode : ∀ e ∈ t, e.Coded)
    (h : (cspiRead mode count).Runs t res) :
    ReadLaw mode count n₀ t res ↔ Regular mode count n₀ t := by
  have hbuffered : ∀ op : Operator, mode.Buffered → op.Of mode →
      (readAdc mode count (some op)).Runs t res →
      (ReadLaw mode count n₀ t res ↔ Regular mode count n₀ t) := fun op hb hop h =>
    lawful_transformed hb hop (readAdc_transformed (by rcases hb with rfl | rfl | rfl <;> decide) h)
  cases mode with
  | unknown => exact absurd rfl hm.2
  | sa => exact absurd rfl hm.1
  | dd =>
    obtain ⟨rc₀, t, rfl, b, t, rfl, h⟩ := h
    exact lawful_dd (readDd_runs h)
  | pm => exact lawful_pm (readDd_runs h)
  | adc => exact lawful_adc (readAdc_runs h)
  | adcCw => exact hbuffered .transformAdcCw (.inl rfl) rfl h
  | adcSp => exact hbuffered .transformAdcSp (.inr (.inl rfl)) rfl h
  | adcSpRot => exact hbuffered .transformAdcSpRot (.inr (.inr rfl)) rfl h
  | average => exact lawful_average hcode (readAvg_runs h)

/-! ## In the library -/

section

variable {fd : Option File} {flags : Bitmask} {ep : EnvParams}

theorem getParam_code (e : ParamMap) (ep : EnvParams) :
    (getParam fd e ep).Ensures fun r => r.1 ≤ 0 := by
  refine ensures_bind fun val => ?_
  cases val with
  | none => exact (by decide : cspiESystem ≤ 0)
  | some w =>
    refine ensures_bind fun r => ?_
    obtain ⟨ok, w⟩ := r
    cases ok with
    | false => exact (by decide : cspiEInvalidParam ≤ 0)
    | true => exact le_rfl

theorem andThen_code {r : ParamResult} {k : EnvParams → LibProg ParamResult} (hr : r.1 ≤ 0)
    (hk : ∀ p, (k p).Ensures fun r => r.1 ≤ 0) : (r.andThen k).Ensures fun r => r.1 ≤ 0 := by
  unfold ParamResult.andThen
  split
  · exact hk _
  · exact hr

theorem handleParams_code (es : List ParamMap) (ep : EnvParams) :
    (handleParams (getParam fd) flags es ep).Ensures fun r => r.1 ≤ 0 := by
  induction es generalizing ep with
  | nil => exact le_rfl
  | cons e es ih =>
    rw [handleParams]
    split
    · exact confined_bind.2 (confined_mono (getParam_code e ep) fun r hr => andThen_code hr ih)
    · exact ih ep

/-- A walk over messages that the flags do not select. -/
theorem ebppDscHandleParams_unselected {es : List DscParamMap}
    (h : ∀ e ∈ es, flags.hits e.mask = false) :
    ebppDscHandleParams flags es ep = Pure.pure (cspiOk, ep) := by
  induction es with
  | nil => rfl
  | cons e es ih =>
    obtain ⟨he, hes⟩ := List.forall_mem_cons.1 h
    rw [ebppDscHandleParams, if_neg (by simp [he]), ih hes]

/-- The query for the sum of the average asks the configuration device alone. -/
theorem customGetenvparam_code :
    (customGetenvparam fd envAverageSum ep).Ensures fun r => r.1 ≤ 0 := by
  have hbase : (baseGetenvparam fd envAverageSum ep).Ensures fun r => r.1 ≤ 0 := by
    rw [baseGetenvparam, if_neg (by decide)]
    refine confined_bind.2 (confined_mono (handleParams_code _ _) fun r hr => ?_)
    refine confined_bind.2 (confined_mono (andThen_code hr fun p => ?_) fun r hr => ?_)
    · rw [gethealthparam, if_neg (by decide)]
      exact le_rfl
    · refine andThen_code hr fun p => ?_
      rw [getfeatureparam, if_neg (by decide)]
      exact le_rfl
  rw [customGetenvparam, if_neg (by decide)]
  refine confined_bind.2 (confined_mono hbase fun r hr => ?_)
  refine confined_bind.2 (confined_mono (andThen_code hr fun p => handleParams_code _ _)
    fun r hr => ?_)
  refine confined_bind.2 (confined_mono (andThen_code hr fun p => ?_) fun r hr => ?_)
  · rw [ebppDscHandleParams_unselected (by decide)]
    exact le_rfl
  · refine andThen_code hr fun p => ?_
    rw [ebppGetPllparam, if_neg (by decide)]
    exact le_rfl

theorem seek_code {h : Handle} {o : BitVec 64} {s : Seek} :
    (l.seek h o s).Ensures fun r => r.1 ≤ 0 := by
  refine confined_bind.2 (ensures_isHcon (by decide : cspiEInvalidHandle ≤ 0) fun p c _ _ => ?_)
  refine confined_bind.2 (ensures_onFile (by decide : cspiESequence ≤ 0) fun f => ?_)
  split
  · exact (by decide : cspiEIllegalCall ≤ 0)
  · refine ensures_bind fun ok => ?_
    cases ok with
    | false => exact (by decide : cspiESystem ≤ 0)
    | true => exact le_rfl

theorem getenvparam_code {h : Handle} :
    (l.getenvparam h ep envAverageSum).Ensures fun r => r.1.1 ≤ 0 := by
  refine confined_bind.2 (ensures_isHenv fun valid => ?_)
  cases valid with
  | false => exact (by decide : cspiEInvalidHandle ≤ 0)
  | true =>
    simp only [if_true, confined_bind, ensures_lock, confined_pure]
    exact fun _ => customGetenvparam_code

end

/-- The library's codes of a search and of a query are not positive. -/
theorem readImpl_coded (k : ReadCall) (l : Lib) :
    (readImpl tf p c f dest k l).Ensures fun r => ReadEvent.Coded ⟨k, r.1⟩ := by
  cases k with
  | seek => exact seek_code
  | average =>
    refine ensures_bind fun params => ?_
    exact confined_bind.2 (confined_mono getenvparam_code fun r hr => hr)
  | _ => exact confined_mono (ensures_true _) fun _ _ => trivial

/-! ## That it returns -/

/-- The environment's mutex is free, and that of the cache when the cache is marked. -/
def Lib.Unlocked (l : Lib) : Prop := l.env.mutex = false ∧ (l.dirty = true → l.cacheMutex = false)

/-- The call has an answer. -/
def Answerable (k : SysCall) : Prop := Nonempty (SysAns k)

theorem answerable_getenvparam {fd : Option File} {flags : Bitmask} {ep : EnvParams} :
    Only Answerable (customGetenvparam fd flags ep) :=
  only_customGetenvparam (fun _ => ⟨0⟩) (fun _ _ => ⟨none⟩)
    ⟨(0, ⟨none, fun _ => none, fun _ => none⟩)⟩ ⟨(0, id)⟩ fun _ _ _ _ => ⟨(0, none)⟩

theorem answerable_uninitEnv : Answerable .uninitEnv := ⟨⟨fun _ => 0, ⟨0, 0⟩, 0⟩⟩

/-- While the mutex of the cache is free its refresh returns, and does not mark it. -/
theorem ebppUpdateCache_returns (hm : l.cacheMutex = false) :
    l.ebppUpdateCache.Confined Answerable fun r => r.2.dirty = l.dirty ∧ r.2.heap = l.heap := by
  unfold Lib.ebppUpdateCache
  refine confined_seq (only_sys answerable_uninitEnv) fun ep => ?_
  refine confined_seq answerable_getenvparam fun r => ?_
  dsimp only
  split
  · rw [Lib.lockCache, if_neg (by simp [hm]), pure_bind]
    refine confined_seq (only_onFile fun f => only_sys ⟨none⟩) fun x => ?_
    cases x with
    | none => exact ⟨rfl, rfl⟩
    | some x =>
      refine confined_seq (only_onFile fun f => only_sys ⟨none⟩) fun y => ?_
      cases y <;> exact ⟨rfl, rfl⟩
  · exact ⟨rfl, rfl⟩

theorem customInitop_returns (h : l.Unlocked) :
    l.customInitop.Confined Answerable fun r => r.2.Unlocked ∧ r.2.heap = l.heap := by
  unfold Lib.customInitop
  split
  · next hd =>
    have hlock : { l with dirty := false }.lock = Pure.pure { l with dirty := false }.locked :=
      lock_eq h.1
    rw [hlock, pure_bind]
    refine confined_bind.2 (confined_mono (ebppUpdateCache_returns (h.2 hd)) fun r hr => ?_)
    exact ⟨⟨rfl, fun hd' => absurd (hr.1.symm.trans hd') Bool.false_ne_true⟩, hr.2⟩
  · exact ⟨h, rfl⟩

theorem getenvparam_returns {ep : EnvParams} {flags : Bitmask} (h : l.Unlocked) :
    (l.getenvparam .env ep flags).Confined Answerable
      fun r => r.2.Unlocked ∧ r.2.heap = l.heap := by
  simp only [Lib.getenvparam, Lib.isHenv, pure_bind, if_true, lock_eq h.1]
  exact confined_seq answerable_getenvparam fun _ => ⟨⟨rfl, h.2⟩, rfl⟩

theorem seek_returns {o : BitVec 64} {s : Seek} (hc : l.heap p = some c) :
    (l.seek (.con p) o s).Confined Answerable fun r => r.2 = l := by
  simp only [Lib.seek, Lib.isHcon, deref_eq hc, pure_bind]
  refine confined_seq (only_onFile fun f => only_ite (only_pure _) ?_) fun _ => rfl
  exact only_seq (only_sys ⟨true⟩) fun _ => only_pure _

/-- The library returns from each call of `cspi_read`, when the loops of the operators end. -/
theorem readImpl_returns (htf : ∀ op cache atom n, (tf op cache atom n).isSome) (k : ReadCall)
    (l : Lib) (h : l.Unlocked ∧ (l.heap p).isSome) :
    (readImpl tf p c f dest k l).Confined Answerable
      fun r => r.2.Unlocked ∧ (r.2.heap p).isSome := by
  have hkept : ∀ {l' : Lib}, l'.Unlocked ∧ l'.heap = l.heap →
      l'.Unlocked ∧ (l'.heap p).isSome := fun hl => ⟨hl.1, hl.2 ▸ h.2⟩
  cases k with
  | initop => exact confined_mono (customInitop_returns h.1) fun r hr => hkept hr
  | seek =>
    obtain ⟨c', hc'⟩ := Option.isSome_iff_exists.1 h.2
    exact confined_mono (seek_returns hc') fun r hr => hr ▸ h
  | average =>
    refine confined_seq (only_sys answerable_uninitEnv) fun params => ?_
    exact confined_bind.2 (confined_mono (getenvparam_returns h.1) fun r hr => hkept hr)
  | calloc => exact ⟨⟨true⟩, fun _ => h⟩
  | read own kind n => exact ⟨⟨none⟩, fun _ => h⟩
  | stamp pm =>
    have hset : ∀ ts, (l.setCon p { c with timestamp := ts }).Unlocked ∧
        ((l.setCon p { c with timestamp := ts }).heap p).isSome := fun ts =>
      ⟨h.1, by simp [Lib.setCon]⟩
    cases pm <;>
    · refine ⟨⟨none⟩, fun ts => ?_⟩
      cases ts with
      | none => exact h
      | some ts => exact hset ts
  | apply op atom n =>
    obtain ⟨members, hmembers⟩ := Option.isSome_iff_exists.1 (htf op l.cache atom n)
    simp only [readImpl, hmembers]
    exact ⟨⟨()⟩, fun _ => h⟩
  | put atoms => exact ⟨⟨()⟩, fun _ => h⟩
  | _ => exact h

/-! ## The law of cspi_read -/

/-- In a run of the library `cspi_read` makes the calls `t` itself. -/
structure ReadRun (tf : Transform) (l : Lib) (p : ℕ) (c : Connection) (f : File) (dest : Buffer)
    (count : Word) (tr : List SysEvent) (res : ReadResult) (l' : Lib) (t : List ReadEvent) :
    Prop where
  runs : (cspiRead c.mode count).Runs t res
  answered : Answered (readImpl tf p c f dest) l t tr l'

/-- A run with these calls is one of the library. -/
theorem ReadRun.runs_read {tr : List SysEvent} (h : ReadRun tf l p c f dest count tr res l' t)
    (hc : l.heap p = some c) (hf : c.fd = some f) (hd : dest ≠ none) :
    (l.read tf (.con p) dest count).Runs tr (res, l') := by
  rw [read_eq hc hf hd]
  exact runs_interp.2 ⟨t, h.runs, h.answered⟩

/-- A connection that is connected in a mode. -/
def connectionIn (mode : Mode) : Connection :=
  { connectionId := 1, mode, fd := some ⟨4, .rdonly⟩ }

/-- A library with this connection alone. -/
def connectedIn (mode : Mode) : Lib :=
  { Lib.loaded with
    env := { Lib.loaded.env with
      usageCount := 1, connectionCount := 1, head := some 0, fd := some ⟨3, .rdonly⟩ }
    heap := fun p => if p = 0 then some (connectionIn mode) else none }

/-- **The codes of `cspi_read`**, on a connection that is connected in a mode that is not a stream,
for whatever `*nread` was before. It returns when the mutexes are free and the loops of the
operators end; and whenever it returns the law is true of it exactly if the read was regular. -/
theorem read_lawful_iff (hc : l.heap p = some c) (hf : c.fd = some f) (hd : dest ≠ none)
    (hm : c.mode.NonStreaming) (n₀ : Word) :
    (l.Unlocked → (∀ op cache atom n, (tf op cache atom n).isSome) →
      ∀ tr, ¬(l.read tf (.con p) dest count).Ends tr none) ∧
    ∀ tr res l', (l.read tf (.con p) dest count).Runs tr (res, l') →
      (∃ t, ReadRun tf l p c f dest count tr res l' t) ∧
      ∀ t, ReadRun tf l p c f dest count tr res l' t →
        (ReadLaw c.mode count n₀ t res ↔ Regular c.mode count n₀ t) := by
  rw [read_eq hc hf hd]
  refine ⟨fun hl htf tr => ?_, fun tr res l' hr => ⟨?_, fun t ht => ?_⟩⟩
  · have hp : (l.heap p).isSome := by rw [hc]; rfl
    exact (confined_interp (readImpl_returns htf) ⟨hl, hp⟩).not_ends_none
  · obtain ⟨t, hruns, hanswered⟩ := runs_interp.1 hr
    exact ⟨t, hruns, hanswered⟩
  · exact cspiRead_lawful hm (ht.answered.forall readImpl_coded) ht.runs

/-- A read of two atoms in the plain mode that are both given. -/
theorem read_lawful_plain : ∃ (tr : List SysEvent) (res : ReadResult) (t : List ReadEvent),
    ReadRun (fun _ _ _ _ => none) (connectedIn .adc) 0 (connectionIn .adc) ⟨4, .rdonly⟩
      (some "dest") 2 tr res (connectedIn .adc) t ∧ res.rc = cspiOk ∧ ReadLaw .adc 2 0 t res := by
  let r : Received (nbytes 2 .adc).toNat := ⟨16, by decide, fun _ => ⟨.adc, [0, 0, 0, 0]⟩⟩
  let t : List ReadEvent := [⟨.read false .adc _, some r⟩,
    ⟨.nread (BitVec.ofNat 32 (r.bytes / AtomKind.adc.size)), ()⟩]
  have hruns : (cspiRead .adc 2).Runs t _ := ⟨some r, _, rfl, (), _, rfl, rfl, rfl⟩
  have hanswered : Answered (readImpl (fun _ _ _ _ => none) 0 (connectionIn .adc) ⟨4, .rdonly⟩
      (some "dest")) (connectedIn .adc) t _ (connectedIn .adc) :=
    .cons ⟨some r, [], rfl, rfl, rfl⟩ <| .cons ⟨rfl, rfl⟩ <| .nil _
  have hrun : ReadRun _ _ _ _ _ _ _ _ _ _ t := ⟨hruns, hanswered⟩
  refine ⟨_, _, t, hrun, rfl, ?_⟩
  refine (((read_lawful_iff rfl rfl (by simp) ⟨by decide, by decide⟩ 0).2 _ _ _
    (hrun.runs_read rfl rfl (by simp))).2 t hrun).2 ?_
  have hbytes : (nbytes 2#32 .adc).toNat = 16 := by decide
  simp [regular_iff, Mode.Buffered, connectionIn, t, r, hbytes, AtomKind.size]

/-- A short read in the mode ADC_CW has the code of success. -/
theorem short_adcCw_ok : ∃ (tf : Transform) (tr : List SysEvent) (res : ReadResult)
    (t : List ReadEvent),
    ((connectedIn .adcCw).read tf (.con 0) (some "dest") 2).Runs tr (res, connectedIn .adcCw) ∧
      ReadRun tf (connectedIn .adcCw) 0 (connectionIn .adcCw) ⟨4, .rdonly⟩ (some "dest") 2 tr res
        (connectedIn .adcCw) t ∧
      atomsGiven t = 1 ∧ res.rc = cspiOk ∧ ¬ReadLaw .adcCw 2 0 t res := by
  let r : Received (nbytes 2 .adc).toNat := ⟨8, by decide, fun _ => ⟨.adc, [0, 0, 0, 0]⟩⟩
  let n := r.bytes / AtomKind.adc.size
  let members : ℕ → List Word := fun _ => [0, 0]
  let t : List ReadEvent := [⟨.calloc, true⟩, ⟨.read true .adc _, some r⟩,
    ⟨.nread (BitVec.ofNat 32 n), ()⟩, ⟨.initop, 0⟩, ⟨.apply .transformAdcCw r.atom n, members⟩,
    ⟨.free, ()⟩]
  have hruns : (cspiRead .adcCw 2).Runs t _ :=
    ⟨true, _, rfl, some r, _, rfl, (), _, rfl, 0, _, rfl, members, _, rfl, (), _, rfl, rfl, rfl⟩
  have hanswered : Answered (readImpl (fun _ _ _ _ => some members) 0 (connectionIn .adcCw)
      ⟨4, .rdonly⟩ (some "dest")) (connectedIn .adcCw) t _ (connectedIn .adcCw) :=
    .cons ⟨true, [], rfl, rfl, rfl⟩ <| .cons ⟨some r, [], rfl, rfl, rfl⟩ <| .cons ⟨rfl, rfl⟩ <|
      .cons ⟨rfl, rfl⟩ <| .cons ⟨(), [], rfl, rfl, rfl⟩ <| .cons ⟨rfl, rfl⟩ <| .nil _
  have hrun : ReadRun _ _ _ _ _ _ _ _ _ _ t := ⟨hruns, hanswered⟩
  have hgiven : atomsGiven t = 1 := by simp [t, r, AtomKind.size]
  refine ⟨_, _, _, t, hrun.runs_read rfl rfl (by simp), hrun, hgiven, rfl, ?_⟩
  rw [readLaw_ok rfl]
  simp [t, r, AtomKind.size]

end LiberaDaq.Cspi
