import LiberaDaq.Cspi.System

/-!
# The state of the library

The one environment of the library, its connections on the heap, and the functions that allocate and
free handles (`cspi.c`), with the event thread that they start and stop (`cspi_events.c`). An
`ASSERT` has no effect in the library that clients use, and the condition of a `VERIFY` is evaluated
for its effects alone.

The functions take the library and give back the one they leave. The mutex is an ordinary one: a
thread that locks it twice waits for ever.
-/

namespace LiberaDaq.Cspi

open LiberaDaq.Interaction

/-! ## The state -/

/-- `Connection`. A connection belongs to the one environment until it is freed. -/
structure Connection where
  connectionId : Word
  mode : Mode := .unknown
  fd : Option File := none
  pid : Word := 0
  eventMask : Bitmask := 0xffff
  handler : Option ℕ := none
  userData : ℕ := 0
  timestamp : Timestamp := {}
  next : Option ℕ := none
  prev : Option ℕ := none

/-- `Environment`, without the members that no function reads. The event thread is there while
`evaction` is not `-1`. -/
structure Environment where
  usageCount : Word
  mutex : Bool
  evaction : Bool
  connectionCount : Word
  head : Option ℕ
  fd : Option File
  superuser : Word

/-- `Cache`: the environment parameters that the operators use. -/
structure Cache where
  kx : Word
  ky : Word
  xoffset : Word
  yoffset : Word
  qoffset : Word
  sp : SpMember → Word
  srDsc : Word
  sr : SrMember → Word
  frequency : Word
  harmonic : Word
  frev : BitVec 64

/-- The variables of the library: the environment, the connections by their address, the counter of
`base_initcon`, `g_decimation`, the cache with its mutex and `_is_cache_dirty`. -/
structure Lib where
  env : Environment
  heap : ℕ → Option Connection
  lastId : Word
  decimation : Word
  cache : Cache
  cacheMutex : Bool
  dirty : Bool

/-- The library when it was loaded. -/
def Lib.loaded : Lib where
  env :=
    { usageCount := 0, mutex := false, evaction := false, connectionCount := 0, head := none
      fd := none, superuser := 0 }
  heap := fun _ => none
  lastId := 0
  decimation := 1
  cache :=
    { kx := 0, ky := 0, xoffset := 0, yoffset := 0, qoffset := 0, sp := fun _ => 0, srDsc := 0
      sr := fun _ => 0, frequency := 0, harmonic := 0, frev := 0 }
  cacheMutex := false
  dirty := false

/-- An assignment to members of the environment. -/
def Lib.setEnv (l : Lib) (f : Environment → Environment) : Lib := { l with env := f l.env }

/-- An assignment to a connection. -/
def Lib.setCon (l : Lib) (p : ℕ) (c : Connection) : Lib :=
  { l with heap := Function.update l.heap p (some c) }

/-- `pthread_mutex_lock` of the environment's mutex. -/
def Lib.lock (l : Lib) : LibProg Lib :=
  if l.env.mutex then hang else pure (l.setEnv fun e => { e with mutex := true })

/-- `pthread_mutex_unlock` of the environment's mutex. -/
def Lib.unlock (l : Lib) : Lib := l.setEnv fun e => { e with mutex := false }

/-- The connection at an address. -/
def Lib.deref (l : Lib) (p : ℕ) : LibProg Connection :=
  match l.heap p with
  | some c => pure c
  | none => fault

/-- An assignment to the connection that a pointer stands for, if it is not null. -/
def Lib.assign (l : Lib) (p : Option ℕ) (f : Connection → Connection) : LibProg Lib :=
  match p with
  | none => pure l
  | some p => do
    let c ← l.deref p
    pure (l.setCon p (f c))

/-- `is_henv`. -/
def Lib.isHenv (l : Lib) : Handle → LibProg Bool
  | .null => pure false
  | .env => pure true
  | .con p => do
    let _ ← l.deref p
    pure false

/-- `is_hcon`: the connection of a handle, when it has one. -/
def Lib.isHcon (l : Lib) : Handle → LibProg (Option (ℕ × Connection))
  | .null | .env => pure none
  | .con p => do
    let c ← l.deref p
    pure (some (p, c))

/-! ## Events -/

/-- `do_event_handler_registration`. -/
def doEventHandlerRegistration (pid uid mask : Word) : LibProg ℤ := do
  let fd ← sys (.open .eventd .wronly)
  match fd with
  | none => pure (-1)
  | some n => do
    let f : File := ⟨n, .wronly⟩
    if ← sys (.writeRequest f ⟨pid, uid, mask⟩) then do
      let ok ← sys (.close f)
      pure (if ok then 0 else -1)
    else do
      let _ ← sys (.close f)
      pure (-1)

/-- `register_event_handler`. -/
def registerEventHandler (c : Connection) : LibProg ℤ :=
  doEventHandlerRegistration c.pid c.connectionId (c.eventMask.setWidth 32)

/-- `unregister_event_handler`. -/
def unregisterEventHandler (c : Connection) : LibProg ℤ :=
  doEventHandlerRegistration c.pid c.connectionId 0

/-- `create_event_pipe`: whether the FIFO of the process could be made and opened. -/
def createEventPipe (pid : Word) : LibProg Bool := do
  if ← sys (.mkfifo (.pidEvent pid)) then do
    let fd ← sys (.open (.pidEvent pid) .rdonly)
    pure fd.isSome
  else pure false

/-- `create_event_thread`, for a connection. -/
def Lib.createEventThread (l : Lib) (c : Connection) : LibProg (ℤ × Lib) :=
  if l.env.evaction then do
    let rc ← registerEventHandler c
    pure (rc, l)
  else if c.eventMask = 0 ∨ c.handler = none then pure (cspiOk, l)
  else do
    if ← createEventPipe c.pid then do
      if ← sys .alloc then do
        if ← sys .pthreadCreate then do
          let rc ← registerEventHandler c
          pure (rc, l.setEnv fun e => { e with evaction := true })
        else pure (cspiESystem, l)
      else fault
    else pure (cspiESystem, l)

/-- `destroy_event_thread`. -/
def Lib.destroyEventThread (l : Lib) : LibProg Lib :=
  if l.env.evaction then do
    let _ ← sys .pthreadJoin
    pure (l.setEnv fun e => { e with evaction := false })
  else pure l

/-! ## The environment handle -/

/-- `test_drvmismatch`. -/
def testDrvmismatch (fd : Option File) : LibProg ℤ :=
  onFile fd cspiESystem fun f => do
    let magic ← sys (.getMagic f)
    match magic with
    | none => pure cspiESystem
    | some magic => pure (if magic = liberaMagic then cspiOk else cspiEVersion)

/-- The access to the configuration device that `base_initenv` asks for. -/
def Environment.access (e : Environment) : Access := if e.superuser ≠ 0 then .rdwr else .rdonly

/-- `base_initenv`. -/
def Lib.baseInitenv (l : Lib) : LibProg (ℤ × Lib) :=
  if l.env.usageCount = 1 then do
    let fd ← sys (.open .cfg l.env.access)
    match fd with
    | none => do
      let _ ← sys .sigaction
      pure (cspiESystem, l.setEnv fun e => { e with fd := none })
    | some n => do
      let f : File := ⟨n, l.env.access⟩
      let rc ← testDrvmismatch (some f)
      pure (rc, l.setEnv fun e => { e with fd := some f })
  else do
    let rc ← testDrvmismatch l.env.fd
    pure (rc, l)

/-- `custom_initenv`. -/
def Lib.customInitenv (l : Lib) : LibProg (ℤ × Lib) := do
  let (rc, l) ← l.baseInitenv
  if rc = 0 then do
    let val ← onFile l.env.fd none fun f => sys (.getCfg f .decDdc)
    match val with
    | none => pure (cspiESystem, { l with dirty := true })
    | some d => pure (rc, { l with decimation := d, dirty := true })
  else pure (rc, { l with dirty := true })

/-- `alloc_env`. -/
def Lib.allocEnv (l : Lib) : LibProg (ℤ × Lib) := do
  let l ← l.lock
  let l := l.setEnv fun e => { e with usageCount := e.usageCount + 1 }
  let (rc, l) ← l.customInitenv
  pure (rc, l.unlock)

/-- `free_env`. -/
def Lib.freeEnv (l : Lib) : LibProg Lib := do
  let l ← l.lock
  pure (l.setEnv fun e => { e with usageCount := e.usageCount - 1 }).unlock

/-- `destroy_env`. -/
def Lib.destroyEnv (l : Lib) : LibProg (ℤ × Lib) := do
  let l ← l.lock
  if l.env.usageCount = 1 then do
    -- this return leaves the mutex locked
    if l.env.connectionCount ≠ 0 then pure (cspiESequence, l)
    else do
      let _ ← onFile l.env.fd false fun f => sys (.close f)
      let l := l.setEnv fun e => { e with fd := none }
      let _ ← sys .sigaction
      pure (cspiOk, l.unlock)
  else pure (cspiOk, l.unlock)

/-! ## The connection handle -/

/-- `insert_con`, for a new connection at `p`. -/
def Lib.insertCon (l : Lib) (p : ℕ) (c : Connection) : LibProg Lib := do
  let l ← l.lock
  let l ← (l.setCon p { c with next := l.env.head }).assign l.env.head
    fun q => { q with prev := some p }
  let l := l.setEnv fun e =>
    { e with head := some p, connectionCount := e.connectionCount + 1 }
  pure l.unlock

/-- `alloc_con` with `base_initcon`, which writes through the pointer without a test. -/
def Lib.allocCon (l : Lib) : LibProg (ℤ × ℕ × Lib) := do
  let q ← sys (.malloc fun p => (l.heap p).isSome)
  match q with
  | none => fault
  | some p => do
    let id := l.lastId + 1
    let l ← { l with lastId := id }.insertCon p { connectionId := id }
    pure (cspiOk, p, l)

/-- `remove_con`. -/
def Lib.removeCon (l : Lib) (p : ℕ) : LibProg Lib := do
  let l ← l.lock
  let c ← l.deref p
  let l ← l.assign c.prev fun q => { q with next := c.next }
  let l ← l.assign c.next fun q => { q with prev := c.prev }
  let l := l.setEnv fun e => { e with head := if e.head = some p then c.next else e.head }
  let l ← l.assign (some p) fun q => { q with prev := none, next := none }
  let l := l.setEnv fun e => { e with connectionCount := e.connectionCount - 1 }
  if l.env.connectionCount = 0 then do
    let _ ← unregisterEventHandler c
    let l ← l.destroyEventThread
    pure l.unlock
  else pure l.unlock

/-- `free_con`, after `destroy_con`. -/
def Lib.freeCon (l : Lib) (p : ℕ) : Lib := { l with heap := Function.update l.heap p none }

/-! ## Handles -/

/-- `cspi_allochandle`. -/
def Lib.allochandle (l : Lib) (type : HandleType) (h : Handle) : LibProg ((ℤ × Handle) × Lib) :=
  match type with
  | .env => do
    let (rc, l) ← l.allocEnv
    if rc ≠ cspiOk then do
      let l ← l.freeEnv
      pure ((rc, .null), l)
    else pure ((rc, .env), l)
  | .con => do
    if ← l.isHenv h then do
      let (rc, p, l) ← l.allocCon
      pure ((rc, .con p), l)
    else pure ((cspiEInvalidHandle, .null), l)

/-- The descriptor of a connection is positive. -/
def Connection.connected (c : Connection) : Bool := c.fd.any (0 < ·.descriptor)

/-- `cspi_freehandle`. -/
def Lib.freehandle (l : Lib) (type : HandleType) (h : Handle) : LibProg (ℤ × Lib) :=
  if h = .null then pure (cspiOk, l)
  else
    match type with
    | .env => do
      if ← l.isHenv h then do
        let (rc, l) ← l.destroyEnv
        if rc = cspiOk then do
          let l ← l.freeEnv
          pure (rc, l)
        else pure (rc, l)
      else pure (cspiEInvalidHandle, l)
    | .con => do
      match ← l.isHcon h with
      | none => pure (cspiEInvalidHandle, l)
      | some (p, c) =>
        if c.connected then pure (cspiESequence, l)
        else do
          let l ← l.removeCon p
          pure (cspiOk, l.freeCon p)

/-- `cspi_setlibparam`, for `CSPI_LIB_SUPERUSER`. -/
def Lib.setlibparam (l : Lib) (superuser : Word) : LibProg (ℤ × Lib) := do
  let l ← l.lock
  pure (cspiOk, (l.setEnv fun e => { e with superuser := superuser }).unlock)

end LiberaDaq.Cspi
