import LiberaDaq.Cspi.Frames

/-!
# Connection parameters read back

`cspi_getconparam` should fill in what `cspi_setconparam` set and change nothing. It does not call
`custom_getconparam`, though, but `custom_setconparam`: it sets the connection to the parameters in
the structure of the caller, and leaves the structure as it is. So it is a query exactly when it
finds nothing to set and the structure has the values already (`query_iff`).

The settings of a connection are members of `Connection`, the event thread of the process, the
decimation and the blocking mode of its file, and the registrations at the event daemon.
-/

namespace LiberaDaq.Cspi

open LiberaDaq.Interaction Prog

/-! ## The call -/

variable {l l' : Lib} {a : ℕ} {c : Connection} {cp q : ConParams} {flags : Bitmask} {f : File}

theorem getconparam_con (hc : l.heap a = some c) (hf : c.fd = some f) :
    l.getconparam (.con a) cp flags =
      l.customSetconparam a c cp flags >>= fun r => Pure.pure ((r.1, cp), r.2) := by
  simp only [Lib.getconparam, Lib.isHcon, Lib.deref, hc]
  change (if c.fd = none then _ else _) = _
  rw [if_neg (by simp [hf])]

/-! ## The devices -/

/-- What is set outside of the library: the decimation and the blocking mode of the open files, and
the masks that the event daemon holds for the connections of each process, `0` for none. -/
structure Devices where
  pid : Word
  dec : File → Word
  nonblock : File → Bool
  registered : Word × Word → Word

/-- A request to the event daemon. -/
def Devices.register (u : Devices) (pid uid mask : Word) : Devices :=
  { u with registered := Function.update u.registered (pid, uid) mask }

/-- The devices and the event daemon as the library sees them: a call that succeeds sets what it is
about. -/
def devicesServe : Serves SysCall SysAns Devices
  | .getpid, x, u, u' => x = u.pid ∧ u' = u
  | .setDec f w, ok, u, u' => u' = if ok then { u with dec := Function.update u.dec f w } else u
  | .setNonblock f on, ok, u, u' =>
    u' = if ok then { u with nonblock := Function.update u.nonblock f on } else u
  | .writeRequest _ r, ok, u, u' => u' = if ok then u.register r.pid r.uid r.mask else u
  | _, _, u, u' => u' = u

variable {u u' : Devices}

/-! ## What was set last -/

/-- The parameters of a connection. -/
inductive ConField
  | mode | handler | userData | eventMask | dec | nonblock
  deriving DecidableEq, Repr

/-- The flag that selects a parameter. -/
def ConField.mask : ConField → Bitmask
  | .mode => conMode
  | .handler => conHandler
  | .userData => conUserdata
  | .eventMask => conEventmask
  | .dec => conDec
  | .nonblock => conSanonblock

/-- Two structures hold the same value of a parameter. -/
def ConField.Same : ConField → ConParams → ConParams → Prop
  | .mode, p, q => p.mode = q.mode
  | .handler, p, q => p.handler = q.handler
  | .userData, p, q => p.userData = q.userData
  | .eventMask, p, q => p.eventMask = q.eventMask
  | .dec, p, q => p.dec = q.dec
  | .nonblock, p, q => (p.nonblock = 0 ↔ q.nonblock = 0)

/-- A call of `cspi_setconparam` that sets a parameter. A null handler is not set. -/
def ConField.setBy (fld : ConField) (cp : ConParams) (flags : Bitmask) : Bool :=
  flags.hits fld.mask && (fld ≠ .handler || cp.handler.isSome)

/-- The structure with the value that calls with their answers have set a parameter of the
connection to last; `none` when it was not set since the connection was allocated. -/
def lastSet (a : ℕ) (fld : ConField) (past : List (Event CspiCall CspiAns)) : Option ConParams :=
  past.foldl (fun last ev =>
    match ev with
    | ⟨.setconparam (.con b) cp flags, rc⟩ =>
      if b = a ∧ rc = cspiOk ∧ fld.setBy cp flags then some cp else last
    | ⟨.allochandle _ _, (_, .con b)⟩ => if b = a then none else last
    | _ => last) none

/-! ## The event thread -/

/-- A registration that is in place already. -/
theorem wlp_register (hr : u.registered (c.pid, c.connectionId) = c.eventMask.setWidth 32) :
    (registerEventHandler c).wlp devicesServe (fun _ u' => u' = u) u := by
  have hsame : u.register c.pid c.connectionId (c.eventMask.setWidth 32) = u := by
    rw [Devices.register, ← hr, Function.update_eq_self]
  unfold registerEventHandler doEventHandlerRegistration
  rintro x _ rfl
  cases x with
  | none => exact rfl
  | some n =>
    rintro ok _ rfl
    cases ok with
    | false => exact fun _ _ h => h
    | true =>
      intro ok u' hu'
      refine (show u' = _ from hu').trans ?_
      simp only [if_true, hsame]

/-- What a thread that is there, or that need not be there, leaves as it is. -/
theorem wlp_createEventThread (h : if l.env.evaction then
      u.registered (c.pid, c.connectionId) = c.eventMask.setWidth 32 else c.eventMask = 0) :
    (l.createEventThread c).wlp devicesServe (fun r u' => r.2 = l ∧ u' = u) u := by
  unfold Lib.createEventThread
  split
  · next hthread =>
    rw [if_pos hthread] at h
    exact wlp_seq (wlp_register h) fun _ _ hu => ⟨rfl, hu⟩
  · next hthread =>
    rw [if_neg hthread] at h
    rw [if_pos (.inl h)]
    exact ⟨rfl, rfl⟩

theorem may_register : (registerEventHandler c).may devicesServe (fun rc u' => rc = cspiOk ∧
    u' = u.register c.pid c.connectionId (c.eventMask.setWidth 32)) u :=
  ⟨some 0, u, rfl, true, _, rfl, true, _, rfl, rfl, rfl⟩

/-- What is left when all calls are granted: a registration at a thread that is there, and a thread
that was not there if there are events to handle. -/
theorem may_createEventThread : (l.createEventThread c).may devicesServe (fun r u' => r.1 = cspiOk ∧
    r.2.heap = l.heap ∧ (l.env.evaction = true → r.2 = l ∧
      u'.registered (c.pid, c.connectionId) = c.eventMask.setWidth 32) ∧
    (l.env.evaction = false → c.handler.isSome = true → c.eventMask ≠ 0 →
      r.2.env.evaction = true) ∧ u'.dec = u.dec ∧ u'.nonblock = u.nonblock) u := by
  unfold Lib.createEventThread
  split
  · next hthread =>
    refine may_bind.2 (may_mono may_register ?_)
    rintro rc u' ⟨rfl, rfl⟩
    refine ⟨rfl, rfl, fun _ => ⟨rfl, Function.update_self _ _ _⟩, fun h => ?_, rfl, rfl⟩
    rw [hthread] at h
    cases h
  · next hthread =>
    split
    · next hidle =>
      refine ⟨rfl, rfl, fun h => absurd h hthread, fun _ hh hm => ?_, rfl, rfl⟩
      rcases hidle with h | h
      · exact absurd h hm
      · rw [h] at hh
        cases hh
    · refine ⟨true, u, rfl, some 0, u, rfl, true, u, rfl, true, u, rfl, ?_⟩
      change (registerEventHandler c >>= _).may _ _ _
      refine may_bind.2 (may_mono may_register ?_)
      rintro rc u' ⟨rfl, rfl⟩
      exact ⟨rfl, rfl, fun h => absurd h hthread, fun _ _ _ => rfl, rfl, rfl⟩

/-! ## Nothing to set -/

/-- The members of a connection that can be set are the same. -/
structure SameCon (c c' : Connection) : Prop where
  mode : c'.mode = c.mode
  eventMask : c'.eventMask = c.eventMask
  handler : c'.handler = c.handler
  userData : c'.userData = c.userData

/-- What the flags select of the structure is what the connection and the devices have already. A
null handler is not set, and neither are the decimation and the blocking mode in other modes than
theirs. -/
structure SetsNothing (l : Lib) (u : Devices) (c : Connection) (f : File) (cp : ConParams)
    (flags : Bitmask) : Prop where
  mode : flags.hits conMode = true → cp.mode = c.mode
  eventMask : flags.hits conEventmask = true → cp.eventMask = c.eventMask
  userData : flags.hits conUserdata = true → cp.userData = c.userData
  handler : flags.hits conHandler = true → cp.handler.isSome = true → cp.handler = c.handler
  thread : flags.hits conHandler = true → cp.handler.isSome = true → if l.env.evaction then
    u.registered (u.pid, c.connectionId) = c.eventMask.setWidth 32 else c.eventMask = 0
  dec : flags.hits conDec = true → c.mode = .dd → ebppIsValiddec cp.dec = true → u.dec f = cp.dec
  nonblock : flags.hits conDec = false → flags.hits conSanonblock = true → c.mode = .sa →
    u.nonblock f = decide (cp.nonblock ≠ 0)

/-- The custom parameters go with the mode. -/
def Succeeds (mode : Mode) (cp : ConParams) (flags : Bitmask) : Prop :=
  (flags.hits conDec = true → mode = .dd ∧ ebppIsValiddec cp.dec = true) ∧
    (flags.hits conSanonblock = true → mode = .sa)

theorem SetsNothing.tune (h : SetsNothing l u c f cp flags) : c.tune cp flags = c := by
  have hmode : (if flags.hits conMode then cp.mode else c.mode) = c.mode := by
    split
    · next hit => exact h.mode hit
    · rfl
  have hmask : (if flags.hits conEventmask then cp.eventMask else c.eventMask) = c.eventMask := by
    split
    · next hit => exact h.eventMask hit
    · rfl
  simp only [Connection.tune, hmode, hmask]

theorem SetsNothing.tuneUser (h : SetsNothing l u c f cp flags) {c' : Connection}
    (hc' : c'.userData = c.userData) : (c'.tuneUser cp flags).userData = c.userData := by
  simp only [Connection.tuneUser]
  split
  · next hit => exact h.userData hit
  · exact hc'

theorem wlp_baseSetconparam (h : SetsNothing l u c f cp flags) (hc : l.heap a = some c) :
    (l.baseSetconparam a c cp flags).wlp devicesServe (fun r u' => u' = u ∧
      (SameCon c r.2.1 ∧ r.2.1.fd = c.fd) ∧ r.2.2.heap a = some r.2.1 ∧
        r.2.2.env.evaction = l.env.evaction) u := by
  unfold Lib.baseSetconparam
  split
  · exact ⟨rfl, ⟨⟨rfl, rfl, rfl, rfl⟩, rfl⟩, hc, rfl⟩
  · rw [h.tune]
    split
    · next hhandler =>
      obtain ⟨hsel, hsome⟩ := Bool.and_eq_true_iff.1 hhandler
      refine wlp_perform_bind.2 ?_
      rintro _ _ ⟨rfl, rfl⟩
      refine wlp_bind.2 (wlp_lock.2 fun _ => ?_)
      refine wlp_seq (wlp_createEventThread (h.thread hsel hsome)) ?_
      rintro ⟨rc, l₁⟩ u₁ ⟨rfl, rfl⟩
      refine ⟨rfl, ⟨⟨rfl, rfl, ?_, h.tuneUser rfl⟩, rfl⟩, Function.update_self _ _ _, rfl⟩
      exact h.handler hsel hsome
    · exact ⟨rfl, ⟨⟨rfl, rfl, rfl, h.tuneUser rfl⟩, rfl⟩, Function.update_self _ _ _, rfl⟩

theorem setconCustom_eq : setconCustom c cp flags =
    (if flags.hits conDec then setconDec c cp else Pure.pure cspiOk) >>= fun rc =>
      if rc ≠ cspiOk then Pure.pure rc
      else if flags.hits conSanonblock then setconNonblock c cp else Pure.pure cspiOk := by
  unfold setconCustom
  by_cases hit : flags.hits conDec = true
  · simp only [hit, if_true]
  · simp only [hit, if_false, Bool.false_eq_true]

theorem wlp_setconCustom (h : SetsNothing l u c f cp flags) {c' : Connection}
    (hmode : c'.mode = c.mode) (hf : c'.fd = some f) :
    (setconCustom c' cp flags).wlp devicesServe
      (fun rc u' => u' = u ∧ (rc = cspiOk → Succeeds c.mode cp flags)) u := by
  have hdec : (if flags.hits conDec then setconDec c' cp else Pure.pure cspiOk).wlp devicesServe
      (fun rc u' => u' = u ∧ (flags.hits conDec = true → rc = cspiOk →
        c.mode = .dd ∧ ebppIsValiddec cp.dec = true)) u := by
    split
    · next hit =>
      simp only [setconDec, onFile, hf, hmode]
      split
      · exact ⟨rfl, fun _ h => absurd (show cspiEIllegalCall = cspiOk from h) (by decide)⟩
      · next hdd =>
        have hdd : c.mode = .dd := not_not.1 hdd
        split
        · next hvalid =>
          rintro ok _ rfl
          have hsame : Function.update u.dec f cp.dec = u.dec := by
            rw [← h.dec hit hdd hvalid, Function.update_eq_self]
          refine ⟨?_, fun _ _ => ⟨hdd, hvalid⟩⟩
          split
          · rw [hsame]
          · rfl
        · exact ⟨rfl, fun _ h => absurd (show cspiEInvalidParam = cspiOk from h) (by decide)⟩
    · next hit => exact ⟨rfl, fun h => absurd h hit⟩
  rw [setconCustom_eq]
  refine wlp_seq hdec ?_
  rintro rc _ ⟨rfl, hdd⟩
  split
  · next hrc => exact ⟨rfl, fun h => absurd h hrc⟩
  · next hrc =>
    have hdd : flags.hits conDec = true → c.mode = .dd ∧ ebppIsValiddec cp.dec = true :=
      fun h => hdd h (not_not.1 hrc)
    split
    · next hit =>
      simp only [setconNonblock, onFile, hf, hmode]
      split
      · exact ⟨rfl, fun h => absurd (show cspiEIllegalCall = cspiOk from h) (by decide)⟩
      · next hsa =>
        have hsa : c.mode = .sa := not_not.1 hsa
        have hno : flags.hits conDec = false := by
          rw [← Bool.not_eq_true]
          intro hit'
          rw [(hdd hit').1] at hsa
          cases hsa
        refine wlp_perform_bind.2 ?_
        rintro x _ rfl
        split
        · exact ⟨rfl, fun h => absurd (show cspiESystem = cspiOk from h) (by decide)⟩
        · rintro ok u' hu'
          refine ⟨(show u' = _ from hu').trans ?_, fun _ => ⟨hdd, fun _ => hsa⟩⟩
          split
          · rw [← h.nonblock hno hit hsa, Function.update_eq_self]
          · rfl
    · next hit => exact ⟨rfl, fun _ => ⟨hdd, fun h => absurd h hit⟩⟩

theorem wlp_customSetconparam (h : SetsNothing l u c f cp flags) (hc : l.heap a = some c)
    (hf : c.fd = some f) : (l.customSetconparam a c cp flags).wlp devicesServe (fun r u' => u' = u ∧
      (∃ c', r.2.heap a = some c' ∧ SameCon c c') ∧ r.2.env.evaction = l.env.evaction ∧
      (r.1 = cspiOk → Succeeds c.mode cp flags)) u := by
  refine wlp_seq (wlp_baseSetconparam h hc) ?_
  rintro ⟨rc, c', l'⟩ _ ⟨rfl, ⟨hsame, hfd⟩, hc', hthread⟩
  dsimp only at hfd hc' hthread ⊢
  split
  · next hrc => exact ⟨rfl, ⟨c', hc', hsame⟩, hthread, fun h => absurd h hrc⟩
  · refine wlp_seq (wlp_setconCustom h hsame.mode (hfd.trans hf)) ?_
    rintro rc' _ ⟨rfl, hok⟩
    exact ⟨rfl, ⟨c', hc', hsame⟩, hthread, hok⟩

/-! ## Calls that are granted -/

/-- What a call has set when all that it asks for is granted. -/
structure Granted (l : Lib) (u : Devices) (c : Connection) (f : File) (cp : ConParams)
    (flags : Bitmask) (c' : Connection) (r : ℤ × Lib) (u' : Devices) : Prop where
  mode : flags.hits conMode = true → c'.mode = cp.mode
  eventMask : flags.hits conEventmask = true → c'.eventMask = cp.eventMask
  userData : flags.hits conUserdata = true → c'.userData = cp.userData
  handler : flags.hits conHandler = true → cp.handler.isSome = true → c'.handler = cp.handler ∧
    (l.env.evaction = true → u'.registered (u.pid, c.connectionId) = c'.eventMask.setWidth 32) ∧
    (l.env.evaction = false → c'.eventMask ≠ 0 → r.2.env.evaction = true)
  dec : flags.hits conDec = true → c'.mode = .dd → ebppIsValiddec cp.dec = true → u'.dec f = cp.dec
  nonblock : flags.hits conDec = false → flags.hits conSanonblock = true → c'.mode = .sa →
    u'.nonblock f = decide (cp.nonblock ≠ 0)
  ok : Succeeds c'.mode cp flags → r.1 = cspiOk

theorem may_setconDec (hf : c.fd = some f) : (setconDec c cp).may devicesServe (fun rc u' =>
    (c.mode = .dd → ebppIsValiddec cp.dec = true → rc = cspiOk ∧ u'.dec f = cp.dec) ∧
      (rc = cspiOk → c.mode = .dd) ∧ u'.registered = u.registered) u := by
  simp only [setconDec, onFile, hf]
  split
  · next hdd =>
    exact ⟨fun h => absurd h hdd,
      fun h => absurd (show cspiEIllegalCall = cspiOk from h) (by decide),
      rfl⟩
  · next hdd =>
    have hdd : c.mode = .dd := not_not.1 hdd
    split
    · exact ⟨true, _, rfl, fun _ _ => ⟨rfl, Function.update_self _ _ _⟩, fun _ => hdd, rfl⟩
    · next hvalid => exact ⟨fun _ h => absurd h hvalid, fun _ => hdd, rfl⟩

theorem may_setconNonblock (hf : c.fd = some f) : (setconNonblock c cp).may devicesServe
    (fun rc u' => (c.mode = .sa → rc = cspiOk ∧ u'.nonblock f = decide (cp.nonblock ≠ 0)) ∧
      u'.registered = u.registered ∧ u'.dec = u.dec) u := by
  simp only [setconNonblock, onFile, hf]
  split
  · next hsa => exact ⟨fun h => absurd h hsa, rfl, rfl⟩
  · refine ⟨some f.access, u, rfl, ?_⟩
    exact ⟨true, _, rfl, fun _ => ⟨rfl, Function.update_self _ _ _⟩, rfl, rfl⟩

theorem may_setconCustom (hf : c.fd = some f) : (setconCustom c cp flags).may devicesServe
    (fun rc u' => (flags.hits conDec = true → c.mode = .dd → ebppIsValiddec cp.dec = true →
        u'.dec f = cp.dec) ∧
      (flags.hits conDec = false → flags.hits conSanonblock = true → c.mode = .sa →
        u'.nonblock f = decide (cp.nonblock ≠ 0)) ∧
      (Succeeds c.mode cp flags → rc = cspiOk) ∧ u'.registered = u.registered) u := by
  rw [setconCustom_eq]
  by_cases hdec : flags.hits conDec = true
  · rw [if_pos hdec]
    refine may_bind.2 (may_mono (may_setconDec hf) ?_)
    rintro rc u₁ ⟨hset, hmode, hreg⟩
    have hno : flags.hits conDec ≠ false := by simp [hdec]
    split
    · next hrc =>
      refine ⟨fun _ hdd hv => (hset hdd hv).2, fun h => absurd h hno, fun h => ?_, hreg⟩
      exact absurd (hset (h.1 hdec).1 (h.1 hdec).2).1 hrc
    · next hrc =>
      have hdd : c.mode = .dd := hmode (not_not.1 hrc)
      split
      · next hsa =>
        refine may_mono (may_setconNonblock hf) ?_
        rintro rc' u' ⟨hnb, hreg', hdec'⟩
        refine ⟨fun _ hdd hv => hdec' ▸ (hset hdd hv).2, fun h => absurd h hno, fun h => ?_,
          hreg'.trans hreg⟩
        exact (hnb (h.2 hsa)).1
      · exact ⟨fun _ hdd hv => (hset hdd hv).2, fun h => absurd h hno, fun _ => rfl, hreg⟩
  · rw [if_neg hdec, pure_bind', if_neg (by simp)]
    split
    · next hsa =>
      refine may_mono (may_setconNonblock hf) ?_
      rintro rc u' ⟨hnb, hreg, -⟩
      exact ⟨fun h => absurd h hdec, fun _ _ h => (hnb h).2, fun h => (hnb (h.2 hsa)).1, hreg⟩
    · next hsa => exact ⟨fun h => absurd h hdec, fun _ h => absurd h hsa, fun _ => rfl, rfl⟩

theorem may_lock {α : Type} {k : Lib → LibProg α} {Q : α → Devices → Prop}
    (hm : l.env.mutex = false) (h : (k l.locked).may devicesServe Q u) :
    (l.lock >>= k).may devicesServe Q u := by
  have hlock : l.lock = Pure.pure l.locked := by
    rw [Lib.lock, if_neg (by simp [hm])]
    rfl
  rw [hlock, pure_bind']
  exact h

/-- The call does not return: the handler is set with the mutex held already. -/
def Blocked (l : Lib) (cp : ConParams) (flags : Bitmask) : Prop :=
  flags.hits conHandler = true ∧ cp.handler.isSome = true ∧ l.env.mutex = true

/-- No connection is set to the unknown mode. -/
def NoMode (cp : ConParams) (flags : Bitmask) : Prop :=
  flags.hits conMode = true ∧ cp.mode = .unknown

theorem may_baseSetconparam (hmode : ¬NoMode cp flags) (hlock : ¬Blocked l cp flags) :
    (l.baseSetconparam a c cp flags).may devicesServe (fun r u' => r.1 = cspiOk ∧
      r.2.1.fd = c.fd ∧ r.2.2.heap a = some r.2.1 ∧
      (flags.hits conMode = true → r.2.1.mode = cp.mode) ∧
      (flags.hits conEventmask = true → r.2.1.eventMask = cp.eventMask) ∧
      (flags.hits conUserdata = true → r.2.1.userData = cp.userData) ∧
      (flags.hits conHandler = true → cp.handler.isSome = true → r.2.1.handler = cp.handler ∧
        (l.env.evaction = true →
          u'.registered (u.pid, c.connectionId) = r.2.1.eventMask.setWidth 32) ∧
        (l.env.evaction = false → r.2.1.eventMask ≠ 0 → r.2.2.env.evaction = true))) u := by
  have huser (c' : Connection) (hit : flags.hits conUserdata = true) :
      (c'.tuneUser cp flags).userData = cp.userData := if_pos hit
  unfold Lib.baseSetconparam
  rw [if_neg (by simpa [NoMode] using hmode)]
  split
  · next hhandler =>
    obtain ⟨hsel, hsome⟩ := Bool.and_eq_true_iff.1 hhandler
    have hm : l.env.mutex = false := by
      rw [← Bool.not_eq_true]
      exact fun hm => hlock ⟨hsel, hsome, hm⟩
    refine ⟨u.pid, u, ⟨rfl, rfl⟩, ?_⟩
    refine may_lock hm (may_bind.2 (may_mono may_createEventThread ?_))
    rintro ⟨rc, l₁⟩ u₁ ⟨rfl, -, hthere, hnew, -, -⟩
    refine ⟨rfl, rfl, Function.update_self _ _ _, fun hit => if_pos hit, fun hit => if_pos hit,
      huser _, fun _ _ => ⟨rfl, fun he => (hthere he).2, fun he hmask => ?_⟩⟩
    exact hnew he hsome hmask
  · next hhandler =>
    refine ⟨rfl, rfl, Function.update_self _ _ _, fun hit => if_pos hit, fun hit => if_pos hit,
      huser _, fun hsel hsome => absurd (Bool.and_eq_true_iff.2 ⟨hsel, hsome⟩) hhandler⟩

/-- When the system and the daemon grant all that it asks for, `custom_setconparam` sets what the
flags select. -/
theorem may_customSetconparam (hf : c.fd = some f) (hmode : ¬NoMode cp flags)
    (hlock : ¬Blocked l cp flags) :
    (l.customSetconparam a c cp flags).may devicesServe (fun r u' => ∃ c',
      r.2.heap a = some c' ∧ Granted l u c f cp flags c' r u') u := by
  refine may_bind.2 (may_mono (may_baseSetconparam hmode hlock) ?_)
  rintro ⟨rc, c', l'⟩ u₁ ⟨rfl, hfd, hc', hset, hmask, huser, hhandler⟩
  dsimp only at hfd hc' hset hmask huser hhandler ⊢
  rw [if_neg (by simp)]
  refine may_bind.2 (may_mono (may_setconCustom (hfd.trans hf)) ?_)
  rintro rc u' ⟨hdec, hnb, hok, hreg⟩
  refine ⟨c', hc', hset, hmask, huser, fun hsel hsome => ?_, hdec, hnb, hok⟩
  rw [hreg]
  exact hhandler hsel hsome

/-! ## The query -/

/-- A call of `cspi_getconparam` is a query: whatever the system answers, it changes neither the
connection nor the devices, and when it returns `CSPI_OK` the parameters that the flags select have
the values that were set last. -/
def Query (past : List (Event CspiCall CspiAns)) (l : Lib) (u : Devices) (a : ℕ) (c : Connection)
    (cp : ConParams) (flags : Bitmask) : Prop :=
  (l.getconparam (.con a) cp flags).wlp devicesServe (fun r u' =>
    (∃ c', r.2.heap a = some c' ∧ SameCon c c') ∧ r.2.env.evaction = l.env.evaction ∧ u' = u ∧
    (r.1.1 = cspiOk → ∀ fld : ConField, flags.hits fld.mask = true → ∀ v,
      lastSet a fld past = some v → fld.Same r.1.2 v)) u

/-- The structure has the values that were set last already. -/
def UpToDate (past : List (Event CspiCall CspiAns)) (a : ℕ) (cp : ConParams) (flags : Bitmask) :
    Prop :=
  ∀ fld : ConField, flags.hits fld.mask = true → ∀ v, lastSet a fld past = some v → fld.Same cp v

variable {past : List (Event CspiCall CspiAns)}

theorem Granted.setsNothing {c' : Connection} {r : ℤ × Lib}
    (h : Granted l u c f cp flags c' r u) (hsame : SameCon c c')
    (hthread : r.2.env.evaction = l.env.evaction) : SetsNothing l u c f cp flags := by
  refine ⟨fun hit => ?_, fun hit => ?_, fun hit => ?_, fun hit hsome => ?_, fun hit hsome => ?_,
    fun hit hdd => ?_, fun hno hit hsa => ?_⟩
  · rw [← h.mode hit, hsame.mode]
  · rw [← h.eventMask hit, hsame.eventMask]
  · rw [← h.userData hit, hsame.userData]
  · rw [← (h.handler hit hsome).1, hsame.handler]
  · obtain ⟨-, hthere, hnew⟩ := h.handler hit hsome
    rw [hsame.eventMask] at hthere hnew
    split
    · next he => exact hthere he
    · next he =>
      have he : l.env.evaction = false := by simpa using he
      by_contra hmask
      rw [hnew he hmask, he] at hthread
      cases hthread
  · exact h.dec hit (hsame.mode.trans hdd)
  · exact h.nonblock hno hit (hsame.mode.trans hsa)

theorem query_noMode (hc : l.heap a = some c) (hf : c.fd = some f) (h : NoMode cp flags) :
    Query past l u a c cp flags := by
  rw [Query, getconparam_con hc hf, Lib.customSetconparam, Lib.baseSetconparam,
    if_pos (by simp [h.1, h.2])]
  exact ⟨⟨c, hc, rfl, rfl, rfl, rfl⟩, rfl, rfl,
    fun h => absurd (show cspiEInvalidParam = cspiOk from h) (by decide)⟩

theorem query_blocked (hc : l.heap a = some c) (hf : c.fd = some f) (h : Blocked l cp flags)
    (hmode : ¬NoMode cp flags) : Query past l u a c cp flags := by
  obtain ⟨hsel, hsome, hm⟩ := h
  rw [Query, getconparam_con hc hf, Lib.customSetconparam, Lib.baseSetconparam,
    if_neg (by simpa [NoMode] using hmode), if_pos (by simp [hsel, hsome])]
  refine wlp_bind.2 (wlp_bind.2 (wlp_perform_bind.2 ?_))
  rintro _ _ ⟨rfl, rfl⟩
  refine wlp_bind.2 (wlp_lock.2 fun hno => ?_)
  rw [show l.env.mutex = false from hno] at hm
  cases hm

/-- **A get is a query only by chance.** `cspi_getconparam` on a connected connection changes
neither the connection nor the devices and leaves the values that were set last in the structure
exactly when it is refused for the unknown mode, when it does not return, or when what the flags
select in the structure is what the connection and the devices have already, and, should it succeed,
what was set last. -/
theorem query_iff (hc : l.heap a = some c) (hf : c.fd = some f) :
    Query past l u a c cp flags ↔ NoMode cp flags ∨ Blocked l cp flags ∨
      SetsNothing l u c f cp flags ∧ (Succeeds c.mode cp flags → UpToDate past a cp flags) := by
  constructor
  · intro h
    by_contra hno
    obtain ⟨hmode, hno⟩ := not_or.1 hno
    obtain ⟨hlock, hno⟩ := not_or.1 hno
    rw [Query, getconparam_con hc hf] at h
    obtain ⟨tr, r, u', hrun, hserved, c', hc', hgranted⟩ :=
      exists_run_of_may (may_customSetconparam hf hmode hlock)
    obtain ⟨⟨c₁, hc₁, hsame⟩, hthread, rfl, hval⟩ := hrun.of_wlp hserved (wlp_bind.1 h)
    obtain rfl := Option.some.inj (hc'.symm.trans hc₁)
    refine hno ⟨hgranted.setsNothing hsame hthread, fun hok fld hit v hv => ?_⟩
    exact hval (hgranted.ok (hsame.mode ▸ hok)) fld hit v hv
  · rintro (h | h | ⟨h, hval⟩)
    · exact query_noMode hc hf h
    · by_cases hmode : NoMode cp flags
      · exact query_noMode hc hf hmode
      · exact query_blocked hc hf h hmode
    · rw [Query, getconparam_con hc hf]
      refine wlp_seq (wlp_customSetconparam h hc hf) ?_
      rintro r _ ⟨rfl, hcon, hthread, hok⟩
      exact ⟨hcon, hthread, rfl, fun hrc fld hit v hv => hval (hok hrc) fld hit v hv⟩

/-! ### A structure that holds another mode -/

/-- A connection is allocated, set to data on demand and connected. -/
def connectedDd : List LibOp :=
  [.call (.allochandle .env .null), .call (.allochandle .con .env),
    .call (.setconparam (.con 2) ⟨.dd, none, 0, 0, 0, 0⟩ conMode), .call (.connect (.con 2))]

/-- No file is decimated or blocked, and no process is registered. -/
def devicesAtRest : Devices := ⟨0, fun _ => 1, fun _ => false, fun _ => 0⟩

theorem connectedDd_moves (tf : Transform) : ∃ m₁ m₂ m₃ m₄ c f, execAll granting (libStep tf)
    connectedDd Lib.loaded 1 = some [m₁, m₂, m₃, m₄] ∧ m₄.after.heap 2 = some c ∧
      c.fd = some f ∧ c.mode = .dd :=
  ⟨_, _, _, _, _, _, rfl, rfl, rfl, rfl⟩

/-- When the structure holds the mode of slow acquisition, the mode of the connection becomes this
one. -/
theorem getconparam_sets_mode : ¬∀ (tf : Transform) (ms : List LibMove) (l : Lib),
    History (libStep tf) Lib.loaded ms l → ∀ (u : Devices) (a : ℕ) (c : Connection) (f : File)
      (cp : ConParams) (flags : Bitmask), l.heap a = some c → c.fd = some f →
      Query (ms.filterMap fun m => m.result) l u a c cp flags := by
  intro h
  obtain ⟨m₁, m₂, m₃, m₄, c, f, hms, hc, hf, hdd⟩ := connectedDd_moves fun _ _ _ _ => none
  obtain ⟨l, hh⟩ := History.of_execAll hms
  obtain ⟨-, rfl⟩ : _ ∧ l = m₄.after :=
    History.last (show History _ _ ([m₁, m₂, m₃] ++ [m₄]) l from hh)
  have hmode : ¬NoMode ⟨.sa, none, 0, 0, 0, 0⟩ conMode := fun h => Mode.noConfusion h.2
  have hlock : ¬Blocked m₄.after ⟨.sa, none, 0, 0, 0, 0⟩ conMode := fun h =>
    absurd h.1 (show conMode.hits conHandler ≠ true by decide)
  have hquery := h _ _ _ hh devicesAtRest 2 c f ⟨.sa, none, 0, 0, 0, 0⟩ conMode hc hf
  rw [Query, getconparam_con hc hf] at hquery
  obtain ⟨tr, r, u', hrun, hserved, c', hc', hgranted⟩ :=
    exists_run_of_may (may_customSetconparam hf hmode hlock)
  obtain ⟨⟨c₁, hc₁, hsame⟩, -⟩ := hrun.of_wlp hserved (wlp_bind.1 hquery)
  obtain rfl := Option.some.inj (hc'.symm.trans hc₁)
  have hdiff : Mode.dd = .sa := by rw [← hdd, ← hsame.mode, hgranted.mode rfl]
  cases hdiff

/-- A structure that holds the mode of the connection. -/
theorem query_iff_same : ∃ (l : Lib) (c : Connection),
    Query [] l devicesAtRest 2 c ⟨.dd, none, 0, 0, 0, 0⟩ conMode := by
  obtain ⟨m₁, m₂, m₃, m₄, c, f, hms, hc, hf, hdd⟩ := connectedDd_moves fun _ _ _ _ => none
  refine ⟨m₄.after, c, (query_iff hc hf).2 (.inr (.inr ⟨⟨fun _ => hdd.symm, ?_, ?_, ?_, ?_, ?_, ?_⟩,
    fun _ fld _ v hv => ?_⟩))⟩
  · exact fun h => absurd h (show conMode.hits conEventmask ≠ true by decide)
  · exact fun h => absurd h (show conMode.hits conUserdata ≠ true by decide)
  · exact fun h => absurd h (show conMode.hits conHandler ≠ true by decide)
  · exact fun h => absurd h (show conMode.hits conHandler ≠ true by decide)
  · exact fun h => absurd h (show conMode.hits conDec ≠ true by decide)
  · exact fun _ h => absurd h (show conMode.hits conSanonblock ≠ true by decide)
  · cases hv

end LiberaDaq.Cspi
