import LiberaDaq.Kernel.SaDevice
import LiberaDaq.Kernel.FileAccess
import LiberaDaq.Interaction.Path
import Mathlib.Data.Fintype.Card

/-!
# The pipes of the SA readers

Each file that is open on the SA device has a pipe of its own, whose address is kept in one of the
`LIBERA_SA_MAX_READERS` slots of `struct libera_registered_pipes` (`libera_sa.c`). A counter says
how many slots are taken, and `next` is the slot that the next pipe goes to: `libera_register_pipe`
looks for a free one after it has taken a slot, and `libera_unregister_pipe` leaves the slot that it
freed.

In every sequence of opens and closes the registry is sound (`registry_sound`): the pipes of the
open files are in one slot each, nothing else is in a slot, and an open is refused when all are
taken.
-/

namespace LiberaDaq.Kernel

open LiberaDaq.Interaction

/-- The address of a `struct sa_local`. -/
abbrev PipePtr := ℕ

/-! ## The registry -/

/-- `struct libera_registered_pipes`. -/
structure RegisteredPipes where
  saPipe : Fin saMaxReaders → Option PipePtr
  registered : ℤ
  next : Fin saMaxReaders

namespace RegisteredPipes

/-- The first slot in which a loop over the slots stops. -/
def findSlot (p : RegisteredPipes) (q : Option PipePtr) : Option (Fin saMaxReaders) :=
  (List.finRange saMaxReaders).find? fun i => p.saPipe i = q

/-- `libera_register_pipe`. Its `occupied` is never `0`, and its callers do not look at the
result. -/
def liberaRegisterPipe (p : RegisteredPipes) (saFifo : PipePtr) : ℤ × RegisteredPipes :=
  let p := { p with
    saPipe := Function.update p.saPipe p.next (some saFifo)
    registered := p.registered + 1 }
  match p.findSlot none with
  | some i => (-1, { p with next := i })
  | none => (-1, p)

/-- `libera_unregister_pipe`. -/
def liberaUnregisterPipe (p : RegisteredPipes) (saFifo : PipePtr) : ℤ × RegisteredPipes :=
  match p.findSlot (some saFifo) with
  | some i =>
    (0, { p with
      registered := p.registered - 1
      saPipe := Function.update p.saPipe i none
      next := i })
  | none => (-1, p)

end RegisteredPipes

/-! ## The device -/

/-- `struct libera_sa_device` as far as the files go, `f_version` of the files that are open on it,
and the addresses that `kmalloc` has given out and `kfree` has not got back. -/
structure SaFiles extends CommonDev where
  pipe : RegisteredPipes
  fVersion : Filp → Option PipePtr
  allocated : PipePtr → Bool

namespace SaFiles

/-- The device that `libera_init_devs` has cleared. -/
def cleared : SaFiles where
  openCount := 0
  writers := 0
  readers := 0
  masterFilp := none
  pipe := ⟨fun _ => none, 0, ⟨0, by decide⟩⟩
  fVersion := fun _ => none
  allocated := fun _ => false

/-- `libera_sa_open` with what `kmalloc` gives; `dev` says that the file has a device. -/
def liberaSaOpen (s : SaFiles) (dev : Bool) (file : Filp) (mode : FMode) (alloc : Option PipePtr) :
    ℤ × SaFiles :=
  if !dev then (-eNoDev, s)
  else if mode.write then (-eAcces, s)
  else if s.pipe.registered < (saMaxReaders : ℤ) then
    match alloc with
    | none => (-eNoMem, s)
    | some pipeSa =>
      (0, { s with
        allocated := Function.update s.allocated pipeSa true
        fVersion := Function.update s.fVersion file (some pipeSa)
        pipe := (s.pipe.liberaRegisterPipe pipeSa).2
        masterFilp := if mode.read ∧ s.masterFilp.isNone then some file else s.masterFilp
        readers := s.readers + 1
        openCount := s.openCount + 1 })
  else (-eBusy, s)

/-- `libera_sa_release`, for a file with the pipe. The file is gone afterwards. -/
def liberaSaRelease (s : SaFiles) (file : Filp) (pipeSa : PipePtr) : SaFiles :=
  let (ret, pipe) := s.pipe.liberaUnregisterPipe pipeSa
  let readers := s.readers - 1
  { s with
    pipe := pipe
    allocated := if ret < 0 then s.allocated else Function.update s.allocated pipeSa false
    fVersion := Function.update s.fVersion file none
    openCount := s.openCount - 1
    readers := readers
    masterFilp := if readers = 0 then none else s.masterFilp }

end SaFiles

/-- What is done with the SA device: a file is opened, and a file that is open is closed. -/
inductive SaFileMove
  | openFile (dev : Bool) (file : Filp) (mode : FMode) (alloc : Option PipePtr)
  | close (file : Filp)

namespace SaFiles

/-- One open or close. -/
def step (s : SaFiles) : SaFileMove → SaFiles
  | .openFile dev file mode alloc => (s.liberaSaOpen dev file mode alloc).2
  | .close file =>
    match s.fVersion file with
    | some pipeSa => s.liberaSaRelease file pipeSa
    | none => s

/-- What the kernel does: `open` is called with a new file, and `kmalloc` gives memory that is not
in use. -/
def Possible (s : SaFiles) : SaFileMove → Prop
  | .openFile _ file _ alloc => s.fVersion file = none ∧ ∀ a ∈ alloc, s.allocated a = false
  | .close _ => True

end SaFiles

/-! ## The slots -/

namespace RegisteredPipes

variable {p : RegisteredPipes} {q : Option PipePtr} {a : PipePtr} {i : Fin saMaxReaders}

theorem findSlot_some (h : p.findSlot q = some i) : p.saPipe i = q := by
  simpa using List.find?_some h

theorem findSlot_none (h : p.findSlot q = none) (i : Fin saMaxReaders) : p.saPipe i ≠ q := by
  simpa using List.find?_eq_none.1 h i (List.mem_finRange i)

/-- The slots that are taken. -/
def taken (p : RegisteredPipes) : Finset (Fin saMaxReaders) :=
  Finset.univ.filter fun i => (p.saPipe i).isSome

@[simp] theorem mem_taken : i ∈ p.taken ↔ (p.saPipe i).isSome = true := by
  simp [taken]

/-- The counter counts the slots that are taken, and `next` is a free one if there is any. -/
structure Counted (p : RegisteredPipes) : Prop where
  count : p.registered = p.taken.card
  next_free : (∃ i, p.saPipe i = none) → p.saPipe p.next = none

/-- There is a free slot as long as the counter is below the number of the slots. -/
theorem Counted.lt_iff (h : p.Counted) :
    p.registered < (saMaxReaders : ℤ) ↔ ∃ i, p.saPipe i = none := by
  have hcard : p.taken.card < saMaxReaders ↔ ∃ i, p.saPipe i = none := by
    constructor
    · intro hlt
      by_contra hnone
      have hall : p.taken = Finset.univ := by
        ext i
        simpa [Option.isSome_iff_ne_none] using fun hi => hnone ⟨i, hi⟩
      rw [hall, Finset.card_univ, Fintype.card_fin] at hlt
      exact lt_irrefl _ hlt
    · rintro ⟨i, hi⟩
      have hmem : i ∉ p.taken := by simp [hi]
      have hne : p.taken ≠ Finset.univ := by
        intro hall
        exact hmem (hall.symm ▸ Finset.mem_univ i)
      have hlt := Finset.card_lt_card (Finset.ssubset_univ_iff.2 hne)
      rwa [Finset.card_univ, Fintype.card_fin] at hlt
  rw [h.count, ← hcard]
  exact Nat.cast_lt

/-- **What `libera_register_pipe` does.** The pipe goes to a slot that was free. -/
theorem Counted.register (h : p.Counted) (hlt : p.registered < (saMaxReaders : ℤ)) (a : PipePtr) :
    p.saPipe p.next = none ∧
      (p.liberaRegisterPipe a).2.saPipe = Function.update p.saPipe p.next (some a) ∧
      (p.liberaRegisterPipe a).2.Counted := by
  have hfree := h.next_free (h.lt_iff.1 hlt)
  have htaken : ∀ next, (⟨Function.update p.saPipe p.next (some a), p.registered + 1, next⟩ :
      RegisteredPipes).taken = insert p.next p.taken := by
    intro next
    ext i
    by_cases hi : i = p.next
    · simp [hi]
    · simp [hi]
  have hcount : ∀ next, (p.registered + 1 : ℤ) = ((⟨Function.update p.saPipe p.next (some a),
      p.registered + 1, next⟩ : RegisteredPipes).taken.card : ℤ) := by
    intro next
    have hnotin : p.next ∉ p.taken := by simp [hfree]
    rw [htaken, Finset.card_insert_of_notMem hnotin, h.count]
    norm_cast
  refine ⟨hfree, ?_⟩
  unfold liberaRegisterPipe
  dsimp only
  split
  · next i hi => exact ⟨rfl, hcount i, fun _ => findSlot_some hi⟩
  · next hnone => exact ⟨rfl, hcount p.next, fun ⟨i, hi⟩ => absurd hi (findSlot_none hnone i)⟩

/-- **What `libera_unregister_pipe` does.** The slot of the pipe is free again. -/
theorem Counted.unregister (h : p.Counted) (ha : p.saPipe i = some a) :
    ∃ j, p.saPipe j = some a ∧ (p.liberaUnregisterPipe a).1 = 0 ∧
      (p.liberaUnregisterPipe a).2.saPipe = Function.update p.saPipe j none ∧
      (p.liberaUnregisterPipe a).2.Counted := by
  unfold liberaUnregisterPipe
  split
  · next j hj =>
    have hslot := findSlot_some hj
    refine ⟨j, hslot, rfl, rfl, ?_, fun _ => Function.update_self ..⟩
    have htaken : (⟨Function.update p.saPipe j none, p.registered - 1, j⟩ :
        RegisteredPipes).taken = p.taken.erase j := by
      ext k
      by_cases hk : k = j
      · simp [hk]
      · simp [hk]
    have hmem : j ∈ p.taken := by simp [hslot]
    have hpos := Finset.card_pos.2 ⟨j, hmem⟩
    rw [htaken, Finset.card_erase_of_mem hmem]
    dsimp only
    rw [h.count]
    omega
  · next hnone => exact absurd ha (findSlot_none hnone i)

end RegisteredPipes

/-! ## Soundness -/

namespace SaFiles

variable {s : SaFiles} {file : Filp} {a : PipePtr}

/-- What holds in every state: the slots have the pipes of the open files, one slot and one file
each, and the memory of these is in use. -/
structure Registered (s : SaFiles) : Prop where
  counted : s.pipe.Counted
  slot : ∀ file a, s.fVersion file = some a → ∃ i, s.pipe.saPipe i = some a
  file : ∀ i a, s.pipe.saPipe i = some a → ∃ file, s.fVersion file = some a
  slot_unique : ∀ i j a, s.pipe.saPipe i = some a → s.pipe.saPipe j = some a → i = j
  file_unique : ∀ f f' a, s.fVersion f = some a → s.fVersion f' = some a → f = f'
  live : ∀ file a, s.fVersion file = some a → s.allocated a = true

/-- A pipe that is not in use is in no slot. -/
theorem Registered.not_in_slot (hs : s.Registered) (ha : s.allocated a = false)
    (i : Fin saMaxReaders) : s.pipe.saPipe i ≠ some a := by
  intro hi
  obtain ⟨file, hfile⟩ := hs.file i a hi
  simp [hs.live file a hfile] at ha

/-- A partial map in which no value stands at two places, with a new value put in. -/
theorem update_unique {ι β : Type} [DecidableEq ι] {f : ι → Option β} {x : β}
    (hf : ∀ i j b, f i = some b → f j = some b → i = j) (hnew : ∀ i, f i ≠ some x) (k i j : ι)
    (b : β) (hi : Function.update f k (some x) i = some b)
    (hj : Function.update f k (some x) j = some b) : i = j := by
  simp only [Function.update_apply] at hi hj
  split_ifs at hi hj with hik hjk hjk
  · exact hik.trans hjk.symm
  · exact absurd (hj.trans hi.symm) (hnew j)
  · exact absurd (hi.trans hj.symm) (hnew i)
  · exact hf i j b hi hj

/-- A file that the device accepts. -/
theorem Registered.accept (hs : s.Registered) (hlt : s.pipe.registered < (saMaxReaders : ℤ))
    (hfile : s.fVersion file = none) (ha : s.allocated a = false) (master : Option Filp)
    (readers : Cspi.Word) (count : ℤ) :
    Registered { s with
      allocated := Function.update s.allocated a true
      fVersion := Function.update s.fVersion file (some a)
      pipe := (s.pipe.liberaRegisterPipe a).2
      masterFilp := master
      readers := readers
      openCount := count } := by
  have hnew := hs.not_in_slot ha
  obtain ⟨hfree, hslots, hcounted⟩ := hs.counted.register hlt a
  have hfiles : ∀ f, s.fVersion f ≠ some a := by
    intro f hf
    rw [hs.live f a hf] at ha
    cases ha
  refine ⟨hcounted, ?_, ?_, ?_, ?_, ?_⟩
  · intro f b hf
    dsimp only at hf ⊢
    rw [hslots]
    by_cases hff : f = file
    · subst hff
      rw [Function.update_self] at hf
      exact ⟨s.pipe.next, by rw [Function.update_self, hf]⟩
    · rw [Function.update_of_ne hff] at hf
      obtain ⟨i, hi⟩ := hs.slot f b hf
      have hne : i ≠ s.pipe.next := by
        rintro rfl
        rw [hfree] at hi
        cases hi
      exact ⟨i, by rw [Function.update_of_ne hne, hi]⟩
  · intro i b hi
    dsimp only at hi ⊢
    rw [hslots] at hi
    by_cases hin : i = s.pipe.next
    · subst hin
      rw [Function.update_self] at hi
      exact ⟨file, by rw [Function.update_self, hi]⟩
    · rw [Function.update_of_ne hin] at hi
      obtain ⟨f, hf⟩ := hs.file i b hi
      have hne : f ≠ file := by
        rintro rfl
        rw [hfile] at hf
        cases hf
      exact ⟨f, by rw [Function.update_of_ne hne, hf]⟩
  · intro i j b hi hj
    dsimp only at hi hj
    rw [hslots] at hi hj
    exact update_unique hs.slot_unique hnew _ i j b hi hj
  · exact update_unique hs.file_unique hfiles file
  · intro f b hf
    dsimp only at hf ⊢
    by_cases hb : b = a
    · rw [hb, Function.update_self]
    · rw [Function.update_of_ne hb]
      by_cases hff : f = file
      · rw [hff, Function.update_self] at hf
        exact absurd (Option.some.inj hf).symm hb
      · rw [Function.update_of_ne hff] at hf
        exact hs.live f b hf

theorem Registered.openFile (hs : s.Registered) {dev : Bool} {mode : FMode}
    {alloc : Option PipePtr} (hfile : s.fVersion file = none)
    (halloc : ∀ a ∈ alloc, s.allocated a = false) :
    (s.liberaSaOpen dev file mode alloc).2.Registered := by
  unfold liberaSaOpen
  by_cases hdev : (!dev) = true
  · rwa [if_pos hdev]
  rw [if_neg hdev]
  by_cases hwrite : mode.write = true
  · rwa [if_pos hwrite]
  rw [if_neg hwrite]
  by_cases hlt : s.pipe.registered < (saMaxReaders : ℤ)
  · rw [if_pos hlt]
    cases alloc with
    | none => exact hs
    | some a => exact hs.accept hlt hfile (halloc a rfl) _ _ _
  · rwa [if_neg hlt]

theorem Registered.close (hs : s.Registered) (hfile : s.fVersion file = some a) :
    (s.liberaSaRelease file a).Registered := by
  obtain ⟨i, hi⟩ := hs.slot file a hfile
  obtain ⟨j, hj, hret, hslots, hcounted⟩ := hs.counted.unregister hi
  have hrelease : s.liberaSaRelease file a = { s with
      pipe := (s.pipe.liberaUnregisterPipe a).2
      allocated := if (s.pipe.liberaUnregisterPipe a).1 < 0 then s.allocated
        else Function.update s.allocated a false
      fVersion := Function.update s.fVersion file none
      openCount := s.openCount - 1
      readers := s.readers - 1
      masterFilp := if s.readers - 1 = 0 then none else s.masterFilp } := rfl
  have hok : ¬(s.pipe.liberaUnregisterPipe a).1 < 0 := by rw [hret]; decide
  rw [hrelease]
  have hother : ∀ f b, f ≠ file → s.fVersion f = some b → b ≠ a := by
    rintro f b hne hf rfl
    exact hne (hs.file_unique f file b hf hfile)
  refine ⟨hcounted, ?_, ?_, ?_, ?_, ?_⟩
  · intro f b hf
    simp only [Function.update_apply] at hf
    split_ifs at hf with hff
    dsimp only
    obtain ⟨k, hk⟩ := hs.slot f b hf
    have hne : k ≠ j := by
      rintro rfl
      exact hother f b hff hf (Option.some.inj (hk.symm.trans hj))
    exact ⟨k, by rw [hslots, Function.update_of_ne hne, hk]⟩
  · intro k b hk
    dsimp only at hk
    rw [hslots] at hk
    simp only [Function.update_apply] at hk
    split_ifs at hk with hkj
    obtain ⟨f, hf⟩ := hs.file k b hk
    have hne : f ≠ file := by
      rintro rfl
      have hba : b = a := Option.some.inj (hf.symm.trans hfile)
      exact hkj (hs.slot_unique k j a (hba ▸ hk) hj)
    exact ⟨f, by dsimp only; rw [Function.update_of_ne hne, hf]⟩
  · intro k l b hk hl
    dsimp only at hk hl
    rw [hslots] at hk hl
    simp only [Function.update_apply] at hk hl
    split_ifs at hk hl
    exact hs.slot_unique k l b hk hl
  · intro f f' b hf hf'
    simp only [Function.update_apply] at hf hf'
    split_ifs at hf hf'
    exact hs.file_unique f f' b hf hf'
  · intro f b hf
    simp only [Function.update_apply] at hf
    split_ifs at hf with hff
    dsimp only
    rw [if_neg hok, Function.update_of_ne (hother f b hff hf)]
    exact hs.live f b hf

/-- What the registry is for. -/
structure Sound (s : SaFiles) : Prop where
  count : s.pipe.registered = s.pipe.taken.card
  own_slot : ∀ file a, s.fVersion file = some a → ∃! i, s.pipe.saPipe i = some a
  own_pipe : ∀ f f' a, s.fVersion f = some a → s.fVersion f' = some a → f = f'
  busy : ∀ file mode alloc, mode.read = true → mode.write = false →
    ((s.liberaSaOpen true file mode alloc).1 = -eBusy ↔ ∀ i, (s.pipe.saPipe i).isSome = true)
  live : ∀ i a, s.pipe.saPipe i = some a → s.allocated a = true

theorem Registered.sound (hs : s.Registered) : s.Sound where
  count := hs.counted.count
  own_slot file a hfile := by
    obtain ⟨i, hi⟩ := hs.slot file a hfile
    exact ⟨i, hi, fun j hj => hs.slot_unique j i a hj hi⟩
  own_pipe := hs.file_unique
  busy file mode alloc _ hwrite := by
    have hall : (∀ i, (s.pipe.saPipe i).isSome = true) ↔
        ¬s.pipe.registered < (saMaxReaders : ℤ) := by
      rw [hs.counted.lt_iff]
      simp [Option.isSome_iff_ne_none]
    have hmode : ¬mode.write = true := by simp [hwrite]
    rw [hall, liberaSaOpen.eq_def, if_neg (by decide), if_neg hmode]
    by_cases hlt : s.pipe.registered < (saMaxReaders : ℤ)
    · have hbusy : (0 : ℤ) ≠ -eBusy ∧ -eNoMem ≠ -eBusy := by decide
      rw [if_pos hlt]
      cases alloc with
      | none => exact iff_of_false hbusy.2 (not_not.2 hlt)
      | some b => exact iff_of_false hbusy.1 (not_not.2 hlt)
    · rw [if_neg hlt]
      exact iff_of_true rfl hlt
  live i a hi := by
    obtain ⟨file, hfile⟩ := hs.file i a hi
    exact hs.live file a hfile

end SaFiles

/-! ## The slots of the device -/

/-- The slots of the registry are those that the tasklet hands the atoms on to. -/
def SaSite.SlotsOf {α : Type} (s : SaSite α) (p : RegisteredPipes) : Prop :=
  ∀ i : Fin saMaxReaders, (s.dev.saPipe i).isSome = (p.saPipe i).isSome

/-- The slot that `libera_register_pipe` takes is one in which the reader of an SA device can
begin. -/
theorem SaSite.SlotsOf.register {α : Type} {s : SaSite α} {p : RegisteredPipes} (h : s.SlotsOf p)
    (hp : p.Counted) (hlt : p.registered < (saMaxReaders : ℤ)) (a : PipePtr) (data : ℕ → α) :
    ∃ s', s.register p.next data = some s' ∧ s'.SlotsOf (p.liberaRegisterPipe a).2 := by
  obtain ⟨hfree, hslots, -⟩ := hp.register hlt a
  have hnone : (s.dev.saPipe p.next).isNone = true := by
    have hsome := h p.next
    rw [hfree] at hsome
    simpa using hsome
  refine ⟨_, if_pos ⟨p.next.isLt, hnone⟩, fun i => ?_⟩
  rw [hslots]
  by_cases hi : i = p.next
  · subst hi
    simp [SaDevice.setPipe]
  · have hne : (i : ℕ) ≠ p.next := fun heq => hi (Fin.ext heq)
    simp [SaDevice.setPipe, hi, hne, h i]

end LiberaDaq.Kernel
