import LiberaDaq.Interaction.Path
import LiberaDaq.Kernel.CfgDevice
import LiberaDaq.Kernel.FileAccess

/-!
# One writer for each device

The configuration, FA, DSC and event devices each allow one file that is open for writing, their
master, and the configuration device lets nobody else change a parameter. The module follows the
counts of each device and its master through any sequence of opens, closes and requests
(`single_writer_iff`).

The event device allocates the memory of a file before it looks for a master, and does not give it
back when it refuses the file; so a refused open changes nothing as long as nobody asks to write
where there is a writer.
-/

namespace LiberaDaq.Kernel

open LiberaDaq.Cspi LiberaDaq.Interaction

/-! ## The requests to the configuration device -/

/-- The parameters that have a number. -/
def CfgIndex.all : List CfgIndex :=
  [.trigmode, .mcpll, .scpll, .featureCustomer, .featureItech] ++ CfgDevice.customIndices ++
    [.ilkstatus, .pmoffset, .pmdec, .extswitch, .swdelay, .dfa, .decDdc, .ddcMaflength,
      .ddcMafdelay,
      .trigdelay, .bcdXoffset, .bcdYoffset, .maxAdc, .averageSum] ++
    (List.finRange notchMax).map .notch1 ++ (List.finRange notchMax).map .notch2 ++
    (List.finRange firMax).map .polyphaseFir

/-- The parameter of a number. -/
def CfgIndex.ofCode (n : ℕ) : Option CfgIndex := CfgIndex.all.find? fun idx => idx.code = n

/-- The commands of the configuration device. -/
inductive CfgIoctl
  | getCfg | setCfg | getMagic | getDesc
  deriving DecidableEq, Repr

/-- The sizes of `libera_cfg_request_t`, `int` and `libera_desc_t`. -/
def cfgRequestSize : ℕ := 8

def intSize : ℕ := 4

def descSize : ℕ := 68

/-- `LIBERA_IOC_CFG`. -/
def liberaIocCfg : ℕ := 0

/-- The numbers of the commands, `LIBERA_IOC_*`. -/
def CfgIoctl.code : CfgIoctl → Command
  | .getCfg => ioc (iocRead ||| iocWrite) liberaIocMagic liberaIocCfg cfgRequestSize
  | .setCfg => ioc iocWrite liberaIocMagic liberaIocCfg cfgRequestSize
  | .getMagic => ioc iocRead liberaIocMagic (liberaIocCfg + 1) intSize
  | .getDesc => ioc iocRead liberaIocMagic (liberaIocCfg + 2) descSize

/-- The command of a number. -/
def CfgIoctl.ofCode (cmd : Command) : Option CfgIoctl :=
  [CfgIoctl.getCfg, .setCfg, .getMagic, .getDesc].find? fun c => c.code = cmd

/-- `LIBERA_CFG_PARAMS_MAX`. -/
def cfgParamsMax : ℕ := 512

/-- `libera_cfg_request_t`. -/
structure CfgRequest where
  idx : Word
  val : Word

/-- What the memory of the user makes of a request: whether `access_ok` accepts its address, the
bytes that could not be read from it with the request that was read, and those that could not be
written. -/
structure UserMemory where
  ok : Bool
  unread : ℕ
  req : CfgRequest
  unwritten : ℕ

/-- `libera_cfg_cmd`. -/
def liberaCfgCmd (g : Global) (d : CfgDevice) (cmd : Command) (arg : UserMemory) : ℤ × CfgDevice :=
  match CfgIoctl.ofCode cmd with
  | some .getCfg =>
    if arg.unread ≠ 0 then (arg.unread, d)
    else if cfgParamsMax ≤ arg.req.idx.toNat then (-eInval, d)
    else match (CfgIndex.ofCode arg.req.idx.toNat).bind fun idx => d.getCfg g idx with
    | none => (-eInval, d)
    | some _ => (arg.unwritten, d)
  | some .setCfg =>
    if arg.unread ≠ 0 then (arg.unread, d)
    else if cfgParamsMax ≤ arg.req.idx.toNat then (-eInval, d)
    else match (CfgIndex.ofCode arg.req.idx.toNat).bind fun idx => d.setCfg g idx arg.req.val with
    | none => (-eInval, d)
    | some d' => (0, d')
  | some .getMagic => (arg.unwritten, d)
  | some .getDesc => (arg.unwritten, d)
  | none => (-eNoTty, d)

/-- `libera_cfg_ioctl`, through `file`, of a device with the given master. -/
def liberaCfgIoctl (g : Global) (master : Option Filp) (file : Filp) (d : CfgDevice) (cmd : Command)
    (arg : UserMemory) : ℤ × CfgDevice :=
  if iocType cmd ≠ liberaIocMagic then (-eNoTty, d)
  else if iocNr cmd &&& liberaIocMask ≠ liberaIocCfg then (-eNoTty, d)
  else if iocDir cmd &&& (iocRead ||| iocWrite) ≠ 0 ∧ !arg.ok then (-eFault, d)
  else if iocDir cmd = iocWrite ∧ master ≠ some file then (-ePerm, d)
  else liberaCfgCmd g d cmd arg

/-! ## The devices -/

/-- The devices that differ in nothing else but their names when a file is opened or closed. -/
inductive PlainDevice
  | cfg | fa | dsc
  deriving DecidableEq, Repr

/-- The devices, with the files that the kernel keeps open on them, and the parameters of the
configuration device. -/
structure AccessWorld where
  common : PlainDevice → CommonDev
  files : PlainDevice → Filp → Option FMode
  event : EventSite
  station : CfgDevice

/-- What happens to the devices. -/
inductive AccessMove
  | openFile (d : PlainDevice) (dev : Bool) (file : Filp) (mode : FMode)
  | close (d : PlainDevice) (file : Filp)
  | event (m : EventMove)
  | cfgIoctl (file : Filp) (cmd : Command) (arg : UserMemory)

namespace AccessWorld

variable (g : Global)

/-- A move, and the code that it returns. -/
def answer (s : AccessWorld) : AccessMove → ℤ × AccessWorld
  | .openFile d dev file mode =>
    let (ret, c) := (s.common d).openFile dev file mode
    (ret, { s with
      common := Function.update s.common d c
      files := Function.update s.files d (EventSite.keepFile (s.files d) file mode ret) })
  | .close d file =>
    match s.files d file with
    | none => (0, s)
    | some mode => (0, { s with
        common := Function.update s.common d ((s.common d).releaseFile mode)
        files := Function.update s.files d (Function.update (s.files d) file none) })
  | .event m => ((s.event.answer m).1, { s with event := s.event.step m })
  | .cfgIoctl file cmd arg =>
    let (ret, station) := liberaCfgIoctl g (s.common .cfg).masterFilp file s.station cmd arg
    (ret, { s with station := station })

/-- The state after a move. -/
def step (s : AccessWorld) (m : AccessMove) : AccessWorld := (s.answer g m).2

/-- A move that the kernel can make. -/
def Possible (s : AccessWorld) : AccessMove → Prop
  | .openFile d _ file _ => s.files d file = none
  | .close d file => s.files d file ≠ none
  | .event m => s.event.Possible m
  | .cfgIoctl file _ _ => s.files .cfg file ≠ none

/-- The devices when the driver was loaded, on the masks of the triggers and the registers that the
FPGA came up with. -/
def loaded (mask : TrigClock → Word) (reg : CfgRegister → Word) : AccessWorld :=
  ⟨fun _ => ⟨0, 0, 0, none⟩, fun _ _ => none, .loaded mask, .initSpecific g reg⟩

end AccessWorld

/-! ## The law -/

/-- A file is open for writing. -/
def Writer (files : Filp → Option FMode) (f : Filp) : Prop :=
  ∃ mode, files f = some mode ∧ mode.write = true

/-- A device has at most one file open for writing, and knows it. -/
structure SingleWriter (files : Filp → Option FMode) (d : CommonDev) : Prop where
  unique : ∀ f f', Writer files f → Writer files f' → f = f'
  count : d.writers = 0 ∨ d.writers = 1
  held : d.writers = 1 → ∃ f, Writer files f ∧ d.masterFilp = some f
  free : d.writers = 0 → (∀ f, ¬Writer files f) ∧ d.masterFilp = none

namespace AccessWorld

/-- Each device has at most one writer. -/
def Orderly (s : AccessWorld) : Prop :=
  (∀ d, SingleWriter (s.files d) (s.common d)) ∧ SingleWriter s.event.files s.event.dev.toCommonDev

/-- Nothing but the `struct file` of a file that was refused differs: the counts, the masters, the
memory and the parameters are as before. -/
structure SameDevices (s s' : AccessWorld) : Prop where
  common : s'.common = s.common
  files : s'.files = s.files
  eventDev : s'.event.dev = s.event.dev
  heap : s'.event.heap = s.event.heap
  eventFiles : s'.event.files = s.event.files
  station : s'.station = s.station

/-- What the devices owe with every move: an orderly state; no change with an open that is refused;
and no change of a parameter but by a request to write, through the master. -/
structure Lawful (g : Global) (s : AccessWorld) (m : AccessMove) : Prop where
  orderly : (s.step g m).Orderly
  refused : (∃ d dev file mode, m = .openFile d dev file mode) ∨
    (∃ dev file mode mem, m = .event (.openFile dev file mode mem)) →
    (s.answer g m).1 ≠ 0 → s.SameDevices (s.step g m)
  params : (s.step g m).station.param ≠ s.station.param →
    ∃ file cmd arg, m = .cfgIoctl file cmd arg ∧ iocDir cmd = iocWrite ∧
      (s.common .cfg).masterFilp = some file

/-- Nobody asks to write to the event device while it has a writer, or there is no memory for the
file. -/
def Spared (s : AccessWorld) : AccessMove → Prop
  | .event (.openFile true _ mode (some _)) => mode.write = true → ∀ f, ¬Writer s.event.files f
  | _ => True

end AccessWorld

/-! ## One device -/

variable {files : Filp → Option FMode} {d d' : CommonDev} {dev : Bool} {file f : Filp}
  {mode : FMode}

/-- The files that are open for writing are the master. -/
structure Held (files : Filp → Option FMode) (d : CommonDev) : Prop where
  master : ∀ f, Writer files f ↔ d.masterFilp = some f
  writers : d.writers = if d.masterFilp.isSome then 1 else 0

theorem Held.single (h : Held files d) : SingleWriter files d := by
  have hone : (1 : Word) ≠ 0 := by decide
  refine ⟨fun f f' hf hf' => ?_, ?_, fun hw => ?_, fun hw => ?_⟩
  · exact Option.some.inj (((h.master f).1 hf).symm.trans ((h.master f').1 hf'))
  · rw [h.writers]
    split
    · exact .inr rfl
    · exact .inl rfl
  · cases hm : d.masterFilp with
    | none =>
      rw [h.writers, hm] at hw
      exact absurd hw.symm hone
    | some f => exact ⟨f, (h.master f).2 hm, rfl⟩
  · cases hm : d.masterFilp with
    | none =>
      refine ⟨fun f hf => ?_, rfl⟩
      rw [(h.master f).1 hf] at hm
      cases hm
    | some f =>
      rw [h.writers, hm] at hw
      exact absurd hw hone

theorem held_start (h : ∀ f, files f = none) : Held files ⟨0, 0, 0, none⟩ := by
  refine ⟨fun f => ⟨fun ⟨mode, hf, _⟩ => ?_, fun hf => nomatch hf⟩, rfl⟩
  rw [h f] at hf
  cases hf

theorem writer_update : Writer (Function.update files file (some mode)) f ↔
    if f = file then mode.write = true else Writer files f := by
  by_cases hf : f = file
  · subst hf
    simp [Writer]
  · simp [Writer, hf]

theorem writer_update_none :
    Writer (Function.update files file none) f ↔ f ≠ file ∧ Writer files f := by
  by_cases hf : f = file
  · subst hf
    simp [Writer]
  · simp [Writer, hf]

namespace CommonDev

/-- What `open` does: it refuses the file and changes nothing, or counts it. -/
theorem openFile_cases (d : CommonDev) (dev : Bool) (file : Filp) (mode : FMode) :
    (∃ ret, ret ≠ 0 ∧ d.openFile dev file mode = (ret, d)) ∨
    (mode.write = true ∧ d.masterFilp = none ∧
      d.openFile dev file mode = (0, { d with masterFilp := some file }.count mode)) ∨
    (mode.write = false ∧ d.openFile dev file mode = (0, d.count mode)) := by
  unfold openFile
  cases dev with
  | false => exact .inl ⟨-eNoDev, by decide, rfl⟩
  | true =>
    cases hw : mode.write with
    | false => exact .inr (.inr ⟨rfl, rfl⟩)
    | true =>
      cases hm : d.masterFilp with
      | none => exact .inr (.inl ⟨rfl, rfl, rfl⟩)
      | some f => exact .inl ⟨-eBusy, by decide, rfl⟩

end CommonDev

/-- A new writer, where there was none. -/
theorem Held.accept (h : Held files d) (hw : mode.write = true) (hm : d.masterFilp = none) :
    Held (Function.update files file (some mode))
      ({ d with masterFilp := some file }.count mode) := by
  have hnone : ∀ f, ¬Writer files f := fun f hf => nomatch hm.symm.trans ((h.master f).1 hf)
  refine ⟨fun f => ?_, ?_⟩
  · rw [writer_update]
    by_cases hf : f = file
    · simp [CommonDev.count, hf, hw]
    · simp [CommonDev.count, hf, hnone f, Ne.symm hf]
  · have hzero : d.writers = 0 := by rw [h.writers, hm]; rfl
    simp [CommonDev.count, hw, hzero]

/-- A new file that is not open for writing. -/
theorem Held.add (h : Held files d) (hfile : files file = none) (hw : mode.write = false) :
    Held (Function.update files file (some mode)) (d.count mode) := by
  refine ⟨fun f => ?_, ?_⟩
  · rw [writer_update, show (d.count mode).masterFilp = d.masterFilp from rfl, ← h.master f]
    by_cases hf : f = file
    · subst hf
      simp [Writer, hfile, hw]
    · simp [hf]
  · simpa [CommonDev.count, hw] using h.writers

/-- A file is closed. -/
theorem Held.close (h : Held files d) (hfile : files file = some mode) :
    Held (Function.update files file none) (d.releaseFile mode) := by
  cases hw : mode.write with
  | false =>
    have hkept : (d.releaseFile mode).masterFilp = d.masterFilp ∧
        (d.releaseFile mode).writers = d.writers := by
      unfold CommonDev.releaseFile
      rw [hw]
      cases mode.read <;> exact ⟨rfl, rfl⟩
    refine ⟨fun f => ?_, by rw [hkept.1, hkept.2]; exact h.writers⟩
    rw [writer_update_none, hkept.1, ← h.master f]
    refine ⟨fun hf => hf.2, fun hf => ⟨?_, hf⟩⟩
    rintro rfl
    obtain ⟨mode', hopen, hwrite⟩ := hf
    rw [hfile] at hopen
    cases hopen
    exact nomatch hw.symm.trans hwrite
  | true =>
    have hm : d.masterFilp = some file := (h.master file).1 ⟨mode, hfile, hw⟩
    have hone : d.writers = 1 := by rw [h.writers, hm]; rfl
    have hreleased : (d.releaseFile mode).masterFilp = none ∧ (d.releaseFile mode).writers = 0 := by
      unfold CommonDev.releaseFile
      rw [hw]
      cases mode.read <;> simp [hone]
    refine ⟨fun f => ?_, by rw [hreleased.1, hreleased.2]; rfl⟩
    rw [writer_update_none, hreleased.1]
    refine ⟨fun hf => absurd ?_ hf.1, fun hf => nomatch hf⟩
    exact (Option.some.inj (hm.symm.trans ((h.master f).1 hf.2))).symm

/-! ## The event device -/

namespace EventSite

variable {s : EventSite} {mem : Option ℕ}

/-- What `open` does to the event device: it has no device or no memory for the file, it refuses the
file and keeps the memory, or it counts the file as the other devices do. -/
theorem openFile_cases (s : EventSite) (dev : Bool) (file : Filp) (mode : FMode)
    (mem : Option ℕ) :
    ((dev = false ∨ mem = none) ∧ ∃ ret, ret ≠ 0 ∧ s.openFile dev file mode mem = (ret, s)) ∨
    ∃ p, dev = true ∧ mem = some p ∧
      (s.openFile dev file mode mem).2.heap = Function.update s.heap p (some ⟨fun _ => 0⟩) ∧
      ((mode.write = true ∧ s.dev.masterFilp ≠ none ∧
          (s.openFile dev file mode mem).1 = -eBusy ∧
          (s.openFile dev file mode mem).2.dev = s.dev) ∨
        (mode.write = true ∧ s.dev.masterFilp = none ∧ (s.openFile dev file mode mem).1 = 0 ∧
          (s.openFile dev file mode mem).2.dev.toCommonDev =
            { s.dev.toCommonDev with masterFilp := some file }.count mode) ∨
        (mode.write = false ∧ (s.openFile dev file mode mem).1 = 0 ∧
          (s.openFile dev file mode mem).2.dev.toCommonDev = s.dev.toCommonDev.count mode)) := by
  unfold openFile
  cases dev with
  | false => exact .inl ⟨.inl rfl, -eNoDev, by decide, rfl⟩
  | true =>
    cases mem with
    | none => exact .inl ⟨.inr rfl, -eNoMem, by decide, rfl⟩
    | some p =>
      refine .inr ⟨p, rfl, rfl, ?_⟩
      cases hw : mode.write with
      | false => exact ⟨rfl, .inr (.inr ⟨rfl, rfl, rfl⟩)⟩
      | true =>
        cases hm : s.dev.masterFilp with
        | none => simp [hm, EventDev.flushEvents]
        | some f => simp [hm]

/-- The event device counts a file that is closed as the other devices do. -/
theorem releaseFile_common : (s.releaseFile file mode).dev.toCommonDev =
    s.dev.toCommonDev.releaseFile mode := by
  have hlast : ∀ d : EventDev, (if d.writers = 0 then
      { d with masterFilp := none, eventMask := 0 }.flushEvents else d).toCommonDev =
      if d.writers = 0 then { d.toCommonDev with masterFilp := none } else d.toCommonDev := by
    intro d
    split <;> rfl
  unfold releaseFile CommonDev.releaseFile
  cases mode.write with
  | false => cases mode.read <;> rfl
  | true => cases mode.read <;> exact hlast _

theorem flushNth_common {d : EventDev} {n : ℕ} : (d.flushNth n).toCommonDev = d.toCommonDev := by
  unfold EventDev.flushNth
  split
  · rfl
  · split
    · rfl
    · split <;> rfl

theorem flushTriggers_common {c : TrigClock} {i : ℕ} {bits : List ℕ} {d : EventDev} :
    (EventDev.flushTriggers c i bits d).toCommonDev = d.toCommonDev := by
  induction bits generalizing i d with
  | nil => rfl
  | cons b bits ih => exact ih.trans flushNth_common

theorem trigEnable_common {c : TrigClock} {mask : Word} {d : EventDev} :
    (d.trigEnable c mask).2.toCommonDev = d.toCommonDev := by
  unfold EventDev.trigEnable
  split <;> rfl

theorem enableTrig_common {c : TrigClock} {ok : Bool} {arg : Word} :
    (s.enableTrig c file ok arg).2.dev.toCommonDev = s.dev.toCommonDev := by
  unfold enableTrig
  split
  · rfl
  · split
    · rfl
    · split
      · rfl
      · exact trigEnable_common.trans flushTriggers_common

/-- Every move of the event device keeps its master. -/
theorem held_step (m : EventMove) (h : Held s.files s.dev.toCommonDev) (hp : s.Possible m) :
    Held (s.step m).files (s.step m).dev.toCommonDev := by
  cases m with
  | openFile dev file mode mem =>
    change Held (keepFile s.files file mode (s.openFile dev file mode mem).1)
      (s.openFile dev file mode mem).2.dev.toCommonDev
    obtain ⟨-, ret, hret, heq⟩ | ⟨p, -, -, -, hcase⟩ := s.openFile_cases dev file mode mem
    · rw [heq, keepFile, if_neg hret]
      exact h
    · obtain ⟨-, -, hret, hdev⟩ | ⟨hw, hm, hret, hdev⟩ | ⟨hw, hret, hdev⟩ := hcase
      · rw [hret, hdev, keepFile, if_neg (by decide)]
        exact h
      · rw [hret, hdev, keepFile, if_pos rfl]
        exact h.accept hw hm
      · rw [hret, hdev, keepFile, if_pos rfl]
        exact h.add hp.1 hw
  | close file =>
    cases hfile : s.files file with
    | none => exact absurd hfile hp
    | some mode =>
      have hstep : s.step (.close file) =
          { s.releaseFile file mode with files := Function.update s.files file none } := by
        simp only [step, answer, hfile]
      rw [hstep]
      dsimp only
      rw [releaseFile_common]
      exact h.close hfile
  | enableTrig c file ok arg =>
    change Held (s.enableTrig c file ok arg).2.files (s.enableTrig c file ok arg).2.dev.toCommonDev
    rw [enableTrig_files, enableTrig_common]
    exact h

end EventSite

/-! ## All devices -/

namespace AccessWorld

variable {g : Global} {s : AccessWorld} {ms : List AccessMove}

/-- Each device knows its writer. -/
structure Kept (s : AccessWorld) : Prop where
  plain : ∀ d, Held (s.files d) (s.common d)
  event : Held s.event.files s.event.dev.toCommonDev

theorem Kept.orderly (h : s.Kept) : s.Orderly := ⟨fun d => (h.plain d).single, h.event.single⟩

theorem kept_loaded {mask : TrigClock → Word} {reg : CfgRegister → Word} :
    (loaded g mask reg).Kept where
  plain _ := held_start fun _ => rfl
  event := held_start fun _ => rfl

/-- A device and its files are replaced. -/
theorem Kept.update (h : s.Kept) {d : PlainDevice} {c : CommonDev} {files : Filp → Option FMode}
    (hd : Held files c) : ({ s with
      common := Function.update s.common d c
      files := Function.update s.files d files } : AccessWorld).Kept := by
  refine ⟨fun e => ?_, h.event⟩
  by_cases he : e = d
  · subst he
    simpa using hd
  · simpa [he] using h.plain e

theorem kept_step {m : AccessMove} (h : s.Kept) (hp : s.Possible m) : (s.step g m).Kept := by
  cases m with
  | openFile d dev file mode =>
    have hd : Held
        (EventSite.keepFile (s.files d) file mode ((s.common d).openFile dev file mode).1)
        ((s.common d).openFile dev file mode).2 := by
      obtain ⟨ret, hret, heq⟩ | ⟨hw, hm, heq⟩ | ⟨hw, heq⟩ :=
        (s.common d).openFile_cases dev file mode
      · rw [heq, EventSite.keepFile, if_neg hret]
        exact h.plain d
      · rw [heq, EventSite.keepFile, if_pos rfl]
        exact (h.plain d).accept hw hm
      · rw [heq, EventSite.keepFile, if_pos rfl]
        exact (h.plain d).add hp hw
    exact h.update hd
  | close d file =>
    cases hfile : s.files d file with
    | none => exact absurd hfile hp
    | some mode =>
      simp only [step, answer, hfile]
      exact h.update ((h.plain d).close hfile)
  | event m => exact ⟨h.plain, s.event.held_step m h.event hp⟩
  | cfgIoctl file cmd arg => exact ⟨h.plain, h.event⟩

/-- A request leaves the configuration device as it is, or it sets a parameter, through the
master. -/
theorem liberaCfgIoctl_cases (g : Global) (master : Option Filp) (file : Filp) (d : CfgDevice)
    (cmd : Command) (arg : UserMemory) :
    (liberaCfgIoctl g master file d cmd arg).2 = d ∨
    ∃ idx d', d.setCfg g idx arg.req.val = some d' ∧ iocDir cmd = iocWrite ∧ master = some file ∧
      (liberaCfgIoctl g master file d cmd arg).2 = d' := by
  unfold liberaCfgIoctl
  split
  · exact .inl rfl
  · split
    · exact .inl rfl
    · split
      · exact .inl rfl
      · split
        · exact .inl rfl
        · next hmaster =>
          unfold liberaCfgCmd
          split
          · refine .inl ?_
            split
            · rfl
            · split
              · rfl
              · split <;> rfl
          · next hcode =>
            have hcmd : CfgIoctl.setCfg.code = cmd := by simpa using List.find?_some hcode
            have hdir : iocDir cmd = iocWrite := hcmd ▸ by decide
            split
            · exact .inl rfl
            · split
              · exact .inl rfl
              · split
                · exact .inl rfl
                · next d' hset =>
                  obtain ⟨idx, -, hset⟩ := Option.bind_eq_some_iff.1 hset
                  exact .inr ⟨idx, d', hset, hdir, not_not.1 fun hne => hmaster ⟨hdir, hne⟩, rfl⟩
          · exact .inl rfl
          · exact .inl rfl
          · exact .inl rfl

/-- The devices keep to the law with a move, if and only if the event device keeps no memory for
nothing. -/
theorem lawful_iff {m : AccessMove} (h : s.Kept) (hp : s.Possible m) :
    s.Lawful g m ↔ s.Spared m := by
  have horderly : (s.step g m).Orderly := (kept_step h hp).orderly
  cases m with
  | openFile d dev file mode =>
    refine ⟨fun _ => trivial, fun _ => ⟨horderly, fun _ hret => ?_, fun hne => absurd rfl hne⟩⟩
    obtain ⟨ret, hne, heq⟩ | ⟨-, -, heq⟩ | ⟨-, heq⟩ := (s.common d).openFile_cases dev file mode
    · simp only [step, answer, heq, EventSite.keepFile, if_neg hne, Function.update_eq_self]
      exact ⟨rfl, rfl, rfl, rfl, rfl, rfl⟩
    · exact absurd (congrArg Prod.fst heq) hret
    · exact absurd (congrArg Prod.fst heq) hret
  | close d file =>
    refine ⟨fun _ => trivial, fun _ => ⟨horderly, ?_, fun hne => absurd ?_ hne⟩⟩
    · rintro (⟨_, _, _, _, hm⟩ | ⟨_, _, _, _, hm⟩) <;> cases hm
    · cases hfile : s.files d file <;> simp only [step, answer, hfile]
  | cfgIoctl file cmd arg =>
    refine ⟨fun _ => trivial, fun _ => ⟨horderly, ?_, fun hne => ?_⟩⟩
    · rintro (⟨_, _, _, _, hm⟩ | ⟨_, _, _, _, hm⟩) <;> cases hm
    · obtain hsame | ⟨idx, d', -, hdir, hmaster, -⟩ :=
        liberaCfgIoctl_cases g (s.common .cfg).masterFilp file s.station cmd arg
      · exact absurd (congrArg CfgDevice.param hsame) hne
      · exact ⟨file, cmd, arg, rfl, hdir, hmaster⟩
  | event m =>
    cases m with
    | close file =>
      refine ⟨fun _ => trivial, fun _ => ⟨horderly, ?_, fun hne => absurd rfl hne⟩⟩
      rintro (⟨_, _, _, _, hm⟩ | ⟨_, _, _, _, hm⟩) <;> cases hm
    | enableTrig c file ok arg =>
      refine ⟨fun _ => trivial, fun _ => ⟨horderly, ?_, fun hne => absurd rfl hne⟩⟩
      rintro (⟨_, _, _, _, hm⟩ | ⟨_, _, _, _, hm⟩) <;> cases hm
    | openFile dev file mode mem =>
      obtain ⟨hno, ret, hret, heq⟩ | ⟨p, rfl, rfl, hheap, hcase⟩ :=
        s.event.openFile_cases dev file mode mem
      · have hspared : s.Spared (.event (.openFile dev file mode mem)) := by
          obtain rfl | rfl := hno
          · trivial
          · cases dev <;> trivial
        refine ⟨fun _ => hspared, fun _ => ⟨horderly, fun _ _ => ?_, fun hne => absurd rfl hne⟩⟩
        simp only [step, answer, EventSite.step, EventSite.answer, heq, EventSite.keepFile,
          if_neg hret]
        exact ⟨rfl, rfl, rfl, rfl, rfl, rfl⟩
      · obtain ⟨hw, hm, hret, -⟩ | ⟨-, hm, hret, -⟩ | ⟨hw, hret, -⟩ := hcase
        · -- the memory was taken, and the file is refused
          obtain ⟨f, hf⟩ := Option.ne_none_iff_exists'.1 hm
          have hwriter : Writer s.event.files f := (h.event.master f).2 hf
          refine ⟨fun hlaw => ?_, fun hspared => absurd hwriter (hspared hw f)⟩
          have hsame := (hlaw.refused (.inr ⟨_, _, _, _, rfl⟩) (by
            change (s.event.openFile true file mode (some p)).1 ≠ 0
            rw [hret]
            decide)).heap
          change (s.event.openFile true file mode (some p)).2.heap = s.event.heap at hsame
          have hnone := congrFun (hheap.symm.trans hsame) p
          rw [Function.update_self, hp.2 p rfl] at hnone
          cases hnone
        · have hfree : ∀ f, ¬Writer s.event.files f := fun f hf =>
            nomatch hm.symm.trans ((h.event.master f).1 hf)
          exact ⟨fun _ _ => hfree, fun _ =>
            ⟨horderly, fun _ hne => absurd hret hne, fun hne => absurd rfl hne⟩⟩
        · refine ⟨fun _ hwrite => ?_, fun _ =>
            ⟨horderly, fun _ hne => absurd hret hne, fun hne => absurd rfl hne⟩⟩
          exact nomatch hw.symm.trans hwrite

/-- **One writer for each device.** In every run from the loading of the driver, every state is
orderly, refused opens change nothing and only the master changes parameters, if and only if nobody
asks to write to the event device while it has a writer. -/
theorem single_writer_iff {mask : TrigClock → Word} {reg : CfgRegister → Word}
    (hp : Along (step g) Possible (loaded g mask reg) ms) :
    ((loaded g mask reg).Orderly ∧ Along (step g) (Lawful g) (loaded g mask reg) ms) ↔
      Along (step g) Spared (loaded g mask reg) ms := by
  have hiff := along_iff hp kept_loaded (fun _ _ h hp => lawful_iff (g := g) h hp)
    fun _ _ h hp _ => kept_step h hp
  exact ⟨fun h => hiff.1 h.2, fun h => ⟨kept_loaded.orderly, hiff.2 h⟩⟩

/-- The station of the runs below. -/
def plainGlobal : Global := ⟨0, 1, 1, 1, 1, 1, 1⟩

/-- A file is open for reading and writing. -/
def readWrite : FMode := ⟨true, true⟩

/-- A second writer of the configuration device is refused, and the first one sets a parameter. -/
theorem single_writer_cfg :
    let ms : List AccessMove := [.openFile .cfg true 1 readWrite, .openFile .cfg true 2 readWrite,
      .cfgIoctl 1 CfgIoctl.setCfg.code ⟨true, 0, ⟨128, 5⟩, 0⟩]
    let s := loaded plainGlobal (fun _ => 0) fun _ => 0
    (s.Orderly ∧ Along (step plainGlobal) (Lawful plainGlobal) s ms) ↔
      Along (step plainGlobal) Spared s ms := by
  exact single_writer_iff ⟨rfl, rfl, show some readWrite ≠ none from nofun, trivial⟩

/-- A second writer of the event device is refused, and its memory stays taken. -/
theorem refused_writer_keeps_memory :
    ¬∀ (g : Global) (mask : TrigClock → Word) (reg : CfgRegister → Word) (ms : List AccessMove),
      Along (step g) Possible (loaded g mask reg) ms →
      (loaded g mask reg).Orderly ∧ Along (step g) (Lawful g) (loaded g mask reg) ms := by
  intro h
  have hlaw := (h plainGlobal (fun _ => 0) (fun _ => 0)
    [.event (.openFile true 1 readWrite (some 100)), .event (.openFile true 2 readWrite (some 200))]
    ⟨⟨rfl, fun _ _ => rfl⟩, ⟨rfl, by rintro _ ⟨⟩; rfl⟩, trivial⟩).2.2.1
  have hheap := congrFun (hlaw.refused (.inr ⟨_, _, _, _, rfl⟩) (by decide)).heap 200
  cases hheap

end AccessWorld

end LiberaDaq.Kernel
