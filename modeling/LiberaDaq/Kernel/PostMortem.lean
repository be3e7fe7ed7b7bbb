import LiberaDaq.Cspi.ReadCalls
import LiberaDaq.Dd.Commands
import LiberaDaq.Interaction.Crowd
import LiberaDaq.Kernel.CalmCalls
import LiberaDaq.Memory.Passes

/-!
# The post mortem data

`libera_acq_pm` writes the time stamp of the event and then the atoms to the memory of the PM device
while it holds the DD device. `cspi_read_ex` reads the atoms and then asks for the time stamp, and the
PM device is held for each of the two on its own: it does not keep an acquisition out. Any number of
processes do both, and read from the DD device, at the same time.

The memory is taken word by word. The words of the time stamp come first, in the order in which they
are written, and then those of the buffer. The mutex of the PM device is left open, as nobody who
writes takes it; that of the DD device has its holder.
-/

namespace LiberaDaq.Kernel

open LiberaDaq.Cspi LiberaDaq.Interaction LiberaDaq.Memory

/-! ## Words and calls -/

/-- What the transfer from the output buffer comes to next: an atom, an overrun, or an error. -/
inductive ObStep
  | atom (words : Fin 8 → Word)
  | overrun
  | failed (e : Dd.TransferError)

/-- The calls: those of the driver and of the library, the transfer, which at its end is checked, and
the words that are stored to the memory of the PM device and copied from it. -/
inductive PmCall
  | driver (c : KCall)
  | library (c : ReadCall)
  | fetch
  | finish
  | put (k : ℕ) (w : Word)
  | copy (k : ℕ)

/-- What a call gives back; a word that cannot be copied to the user is not. -/
abbrev PmAns : PmCall → Type
  | .driver c => KAns c
  | .library c => ReadAns c
  | .fetch => ObStep
  | .finish => Option Dd.TransferError
  | .put _ _ => Unit
  | .copy _ => Option Word

abbrev PmProg (α : Type) := Prog PmCall PmAns α

abbrev pmcall (c : PmCall) : PmProg (PmAns c) := Prog.perform c

/-- `lmt2mt` and `lst2st` of the last pair of time stamps of POST_MORTEM, in words. -/
def stampWords (g : Dd.Clocks) (event : ℤ × ℤ) : List Word :=
  let mt := g.lmt2mt (.ofInt 64 event.2)
  let st := Dd.lst2st (.ofInt 64 event.1)
  [mt.setWidth 32, (mt >>> 32).setWidth 32, st.tvSec, st.tvNsec]

/-- Words that are stored from a cell on. -/
def putWords : ℕ → List Word → PmProg Unit
  | _, [] => pure ()
  | k, w :: ws => do
    pmcall (.put k w)
    putWords (k + 1) ws

/-- `libera_dd_read_OBfifo_DMA`, for the last `n` atoms, after the first ones. -/
def readObFifo (first : ℕ) : ℕ → PmProg ℤ
  | 0 => do
    match ← pmcall .finish with
    | some e => pure e.ret
    | none => pure first
  | n + 1 => do
    match ← pmcall .fetch with
    | .atom words => do
      putWords (4 + 8 * first) (List.ofFn words)
      readObFifo (first + 1) n
    | .overrun => pure first
    | .failed e => pure e.ret

/-- The atoms that words make up. -/
def rawAtom (ws : List Word) (i : ℕ) : Atom := ⟨.dd, (ws.drop (8 * i)).take 8⟩

/-- What a process gets for the code of the device and the words that were copied. -/
def received (n : ℕ) (ret : ℤ) (ws : List Word) : Option (Received n) :=
  if h : 0 ≤ ret ∧ ret.toNat ≤ n then some ⟨ret.toNat, h.2, rawAtom ws⟩ else none

/-- The memory of the PM device, who holds the DD device, and the stores that were made. -/
structure PmWorld (ι : Type) where
  cells : ℕ → Word
  holder : Option ι
  stores : List (ℕ × Word)

/-- What the device held when the driver was loaded. -/
def PmWorld.start {ι : Type} (cells : ℕ → Word) : PmWorld ι := ⟨cells, none, []⟩

variable {ι : Type}

/-- The stores of an acquisition that has come past the time stamp: the time stamp of an event, and
words. -/
def acquired (g : Dd.Clocks) (event : ℤ × ℤ) (words : List Word) : List (ℕ × Word) :=
  passOf (stampWords g event ++ words)

/-- What an acquisition stores, as far as it comes: the time stamp of an event, and the buffer. -/
def Acquires (g : Dd.Clocks) (pmsize : ℕ) (p : List Word) : Prop :=
  ∃ event words, p <+: stampWords g event ++ words ∧ words.length = 8 * pmsize

/-- The stores of acquisitions, one after the other. -/
def Acquisitions (g : Dd.Clocks) (pmsize : ℕ) (s : List (ℕ × Word)) : Prop :=
  ∃ ps : List (List Word), s = ps.flatMap passOf ∧ ∀ p ∈ ps, Acquires g pmsize p

/-- The memory is what the stores have left, and these are of acquisitions. -/
structure PmSound (g : Dd.Clocks) (pmsize : ℕ) (boot : ℕ → Word) (u : PmWorld ι) : Prop where
  cells : u.cells = overwritten boot u.stores
  passes : Acquisitions g pmsize u.stores

end LiberaDaq.Kernel
