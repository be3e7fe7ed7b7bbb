import LiberaDaq.Cspi.Codes
import LiberaDaq.Interaction.Program

/-!
# The interface of CSPI

The calls of `cspi.h` that a client makes, with what each one gives back. A call that writes
through a pointer of the caller gives back the contents it leaves there.
-/

namespace LiberaDaq.Cspi

open LiberaDaq.Interaction

/-- The result of `cspi_read`: its code, `*nread` and the atoms left in the buffer. `*nread` is `0`
before the call. -/
structure ReadResult where
  rc : ℤ
  nread : Word
  data : List Atom
  deriving DecidableEq, Repr

/-- The calls of a client of the library. -/
inductive CspiCall
  | setlibparam (superuser : Word)
  | allochandle (type : HandleType) (h : Handle)
  | freehandle (type : HandleType) (h : Handle)
  | setenvparam (h : Handle) (p : EnvParams) (flags : Bitmask)
  | getenvparam (h : Handle) (p : EnvParams) (flags : Bitmask)
  | setconparam (h : Handle) (p : ConParams) (flags : Bitmask)
  | connect (h : Handle)
  | disconnect (h : Handle)
  | seek (h : Handle) (offset : BitVec 64) (origin : Seek)
  | read (h : Handle) (dest : Buffer) (count : Word)
  | get (h : Handle) (dest : Buffer)
  | gettimestamp (h : Handle)
  | settime (h : Handle) (ts : SetTimestamp) (flags : Bitmask)

/-- What a call gives back. -/
abbrev CspiAns : CspiCall → Type
  | .allochandle _ _ => ℤ × Handle
  | .setenvparam _ _ _ | .getenvparam _ _ _ => ℤ × EnvParams
  | .read _ _ _ => ReadResult
  | .get _ _ => ℤ × List Atom
  | .gettimestamp _ => ℤ × Timestamp
  | _ => ℤ

end LiberaDaq.Cspi
