import LiberaDaq.Calibration.Reading
import LiberaDaq.Kernel.Interlock

/-!
# Coherence of the cache

The life of a process that uses the library, from the allocation of its environment handle on,
interleaved with what the other processes and the DSC server do to the parameters and with the
announcements that its event thread handles. At any time, the cache is marked, an announcement is
pending that will mark it, or it is coherent (`Attended`).

Two things break this. A read clears the mark before it refreshes the cache, so a refresh that fails
leaves a cache that is neither marked nor coherent. And the hook does not heed the switch of the
spike removal. Where neither happens, `cache_coherent`.
-/

namespace LiberaDaq.Calibration

open LiberaDaq.Interaction LiberaDaq.Cspi LiberaDaq.Kernel Prog

variable {g : Global} {u u' : CacheWorld} {l l' : Lib} {flags : Bitmask} {ep : EnvParams}
  {tf : Transform} {serve : Serves SysCall SysAns CacheWorld}

/-! ## Calls that keep the cache attended -/

/-- The call does not set the switch of the spike removal. -/
def sparesSwitch : SysCall → Prop
  | .setCfg _ idx _ => idx ≠ .sr .enable
  | _ => True

/-- What the system changes on such a call it announces. -/
theorem announced_serve {c : SysCall} {x : SysAns c} (hc : sparesSwitch c)
    (hx : cacheServe g c x u u') : Announced u u' := by
  cases c with
  | setCfg f idx val =>
    simp only [cacheServe] at hx
    split at hx
    · cases hs : u.cfg.dev.setCfg g idx val with
      | none =>
        rw [hs] at hx
        exact hx.2 ▸ .refl u
      | some dev =>
        rw [hs] at hx
        exact hx.2 ▸ announced_setDev hs fun h => absurd h hc
    · exact hx.2 ▸ .refl u
  | getCfg f idx => exact hx.2 ▸ .refl u
  | toattn w => exact hx.2 ▸ .refl u
  | dscMessage msg val =>
    cases msg with
    | getDsc => exact hx.2 ▸ .refl u
    | getFrev => exact (show u' = u from hx) ▸ .refl u
    | setDsc => exact hx.elim (· ▸ .refl u) (· ▸ announced_setDsc)
    | _ => exact hx.elim (· ▸ .refl u) fun ⟨_, _, h⟩ => h ▸ announced_setOffsets
  | hang | fault => exact x.elim
  | _ => exact (show u' = u from hx) ▸ .refl u

theorem sparesSwitch_of_plain {c : SysCall} (h : Plain c) : sparesSwitch c := by
  cases c with
  | setCfg => cases h
  | _ => trivial

/-- An attended cache stays so under plain calls. -/
theorem steady_attended : Steady (cacheServe g) Attended where
  call _ _ _ _ _ hc hx h := (announced_serve (sparesSwitch_of_plain hc) hx).attended h
  same hl h := h.imp hl.dirty (·.imp_right (hl.cache ▸ ·))

theorem quiet_of_spares {α : Type} {p : LibProg α} (h : Only sparesSwitch p) :
    Cspi.Quiet (cacheServe g) Attended p l :=
  fun _ hu => wlp_mono (wlp_keep h (fun _ _ _ _ hc hx hv => (announced_serve hc hx).attended hv) hu)
    fun _ _ h => h.2

/-- The switch is one of the parameters of the cache. -/
theorem hits_envSr (hf : flags.hits cacheMask = false) : flags.hits envSr = false := by
  rw [Bitmask.hits_comm, cacheMask] at hf
  simp only [Bitmask.hits_or, Bool.or_eq_false_iff] at hf
  rw [Bitmask.hits_comm]
  exact hf.2.2.2.2.2.1

theorem customSetMap_switch (d : Word) :
    ∀ e ∈ customSetMap d, e.code = .sr .enable → e.mask = envSr := by
  simp [customSetMap, paramIlk, paramPm, paramSr, paramSp]

theorem coeffMap_switch : ∀ e ∈ coeffMap, e.code = .sr .enable → e.mask = envSr := by
  intro e he
  simp only [coeffMap, List.mem_append, List.mem_map] at he
  obtain ⟨i, -, rfl⟩ | ⟨i, -, rfl⟩ | ⟨i, -, rfl⟩ := he <;> simp

/-- Parameters that are not of the cache are set without the switch. -/
theorem spares_setEnvparams {fd : Option File} {d : Word} (hf : flags.hits cacheMask = false) :
    Only sparesSwitch (setEnvparams fd d flags ep) := by
  have hwalk : ∀ es, (∀ e ∈ es, e.code = .sr .enable → e.mask = envSr) → ∀ p,
      Only sparesSwitch (handleParams (setParam fd) flags es p) := by
    refine fun es hes p => only_handleParams (fun e he hm p => ?_) p
    refine only_setParam (fun _ => trivial) (fun _ _ hc => ?_) p
    rw [hes e he hc, hits_envSr hf] at hm
    cases hm
  exact only_setEnvparams (hwalk _ (by simp [baseSetMap])) (hwalk _ (customSetMap_switch d))
    (hwalk _ coeffMap_switch) (fun _ _ => trivial) (fun _ => trivial) (fun _ _ _ => trivial)
    fun _ => trivial

/-! ## Steps -/

/-- A step of the process, with the world. -/
abbrev CacheMove := Move LibOp LibResult (Lib × CacheWorld) SysEvent

/-- The step is a read. -/
def Reads : LibOp → Prop
  | .call (.read _ _ _) => True
  | _ => False

/-- All calls but the reads keep the cache attended. -/
theorem keeps_attended {call : CspiCall} (hr : ¬Reads (.call call)) :
    Keeps (cacheServe g) Attended (cspiImpl tf call l) l := by
  have hs : Steady (cacheServe g) Attended := steady_attended
  cases call with
  | setlibparam s => exact hs.setlibparam
  | allochandle => exact hs.allochandle
  | freehandle => exact hs.freehandle
  | setenvparam h p flags =>
    refine hs.setenvparam ?_
    cases hf : flags.hits cacheMask with
    | false => exact .inl fun _ _ _ => quiet_of_spares (spares_setEnvparams hf)
    | true => exact .inr ⟨rfl, fun _ _ hd => .inl hd⟩
  | getenvparam =>
    refine hs.getenvparam fun _ _ => quiet_of_spares ?_
    exact only_customGetenvparam (fun _ => trivial) (fun _ _ => trivial) trivial trivial
      fun _ _ _ _ => trivial
  | setconparam => exact hs.setconparam
  | connect => exact hs.connect
  | disconnect => exact hs.disconnect
  | seek => exact hs.seek
  | read => exact absurd trivial hr
  | get => exact hs.get
  | gettimestamp => exact hs.gettimestamp
  | settime => exact hs.plain plain_settime fun _ => hs.done ⟨rfl, rfl, id⟩

/-- The atoms of a read of turn-by-turn data that succeeded, with nothing pending, were transformed
with a coherent cache, by the operator that it calls for. -/
def Calibrated (tf : Transform) (m : CacheMove) : Prop :=
  ∀ p dest count c r, m.op = .call (.read (.con p) dest count) → m.before.1.heap p = some c →
    turnByTurn c.mode → m.result = some ⟨.read (.con p) dest count, r⟩ → r.rc = cspiOk →
    m.before.2.pending = [] → Coherent m.after.1.cache m.after.2 ∧
      MadeWith tf (called c.mode m.after.1.cache) m.after.1.cache r.data

/-- A read of a marked cache, with no announcement pending that would mark it again, refreshes it:
the environment has its device, and no query for a mirrored value is refused. -/
def Refreshes (m : CacheMove) : Prop :=
  Reads m.op → m.before.1.dirty = true → ¬m.before.2.Warned →
    m.before.1.env.fd.isSome ∧ ∀ e ∈ m.events, ¬Refused e

/-- The switch of the spike removal is the same after a step from outside, or the cache is marked,
or it will be. -/
def SwitchKept (w w' : Lib × CacheWorld) : Prop :=
  w.1.dirty = true ∨ w.2.Warned ∨
    w'.2.cfg.dev.param (.sr .enable) = w.2.cfg.dev.param (.sr .enable)

/-- What may happen. -/
def Heeded : Occurrence LibOp LibResult Lib CacheWorld SysEvent → Prop
  | .move m => Refreshes m
  | .outside w w' => SwitchKept w w'

/-- A read of an attended cache. -/
theorem attended_read {m : CacheMove} (hm : m.ServedBy (libStep tf) (cacheServe g))
    (h : Attended m.before.1 m.before.2) (hG : Refreshes m) (hr : Reads m.op) :
    Calibrated tf m ∧ Attended m.after.1 m.after.2 := by
  obtain ⟨op, ⟨l, u⟩, tr, x, l', u'⟩ := m
  obtain ⟨h', dest, count, rfl⟩ : ∃ h' dest count, op = .call (.read h' dest count) := by
    cases op with
    | deliver => cases hr
    | call call =>
      cases call with
      | read h' dest count => exact ⟨h', dest, count, rfl⟩
      | _ => cases hr
  obtain ⟨⟨r, l''⟩, hrun, he⟩ := runs_bind_pure.1 hm.runs
  obtain ⟨rfl, rfl⟩ := Prod.mk.inj he
  have hserved : Served (cacheServe g) tr u u' := hm.served
  have hself : Within (cacheServe g) g := fun _ _ _ _ hx => hx
  obtain rfl : u' = u := hrun.of_wlp hserved (read_world hself)
  cases h' with
  | null | env => exact (hrun.of_wlp (Q := fun _ _ => False) hserved fun e => e.elim).elim
  | con p =>
    by_cases hw : u'.Warned
    · refine ⟨fun _ _ _ _ _ _ _ _ _ _ hp => ?_, .inr (.inl hw)⟩
      obtain ⟨i, hi, -⟩ := hw
      rw [show u'.pending = [] from hp] at hi
      cases hi
    · suffices hread : Sound l'' u' ∧ ∀ c, l.heap p = some c → turnByTurn c.mode →
          r.rc = cspiOk → Coherent l''.cache u' ∧
            MadeWith tf (called c.mode l''.cache) l''.cache r.data by
        refine ⟨fun q dest' count' c r' hop hc hmode hres hok _ => ?_, hread.1.imp_right .inr⟩
        obtain ⟨rfl, rfl, rfl⟩ : p = q ∧ dest = dest' ∧ count = count' := by simpa using hop
        obtain rfl : r = r' := by simpa using hres
        exact hread.2 c hc hmode hok
      cases hd : l.dirty with
      | true =>
        obtain ⟨hfd, hanswered⟩ := hG trivial hd hw
        have hwithin : Within (cacheAnswers g) g := fun _ _ _ _ hx => hx.1
        exact hrun.of_wlp (hserved.and hanswered) (wlp_read hwithin (.marked hd hfd rfl))
      | false =>
        have hc : Coherent l.cache u' :=
          (h.resolve_left fun hd' => by simp [hd] at hd').resolve_left hw
        exact hrun.of_wlp hserved (wlp_read hself (.clean hd hc))

/-- A step of the process keeps the cache attended. -/
theorem attended_step {m : CacheMove} (hm : m.ServedBy (libStep tf) (cacheServe g))
    (h : Attended m.before.1 m.before.2) (hG : Refreshes m) :
    Calibrated tf m ∧ Attended m.after.1 m.after.2 := by
  by_cases hr : Reads m.op
  · exact attended_read hm h hG hr
  · refine ⟨fun p dest count c r hop => absurd (by rw [hop]; trivial) hr, ?_⟩
    obtain ⟨op, ⟨l, u⟩, tr, x, l', u'⟩ := m
    refine hm.of_wlp (Q := fun r v => Attended r.2 v) ?_
    cases op with
    | deliver p =>
      have hmark : l.SameCache (l.signalHandlerHook p) := by
        unfold Lib.signalHandlerHook
        split
        · exact ⟨rfl, rfl, fun _ => rfl⟩
        · exact ⟨rfl, rfl, id⟩
      have hs : Steady (cacheServe g) Attended := steady_attended
      exact hs.same hmark h
    | call call => exact wlp_bind.2 (wlp_mono (keeps_attended hr u h) fun _ _ h => h)

/-- A step from outside keeps it so, if it keeps the switch. -/
theorem attended_outside {w w' : Lib × CacheWorld} (ho : CacheOutside g w w')
    (h : Attended w.1 w.2) (hG : SwitchKept w w') : Attended w'.1 w'.2 := by
  cases ho with
  | deliver l u a b i hp => exact attended_deliver hp h
  | set l u idx val dev hset =>
    rcases hG with hd | hw | he
    · exact .inl hd
    · exact .inr (.inl (warned_append hw))
    · refine (announced_setDev hset ?_).attended h
      rintro rfl
      exact he
  | dsc l u dsc => exact announced_setDsc.attended h
  | offsets l u x y => exact announced_setOffsets.attended h
  | station l u master gains => exact h.imp_right (·.imp_right (·.of_same ⟨fun _ _ => rfl, rfl⟩))

/-- Every allocation of the environment handle marks the cache. -/
theorem allochandle_marks {h : Handle} :
    (l.allochandle .env h).Ensures fun r => r.2.dirty = true := by
  have hinit : ∀ l : Lib, l.customInitenv.Ensures fun r => r.2.dirty = true := fun l => by
    refine ensures_bind fun r => ?_
    dsimp only
    split
    · refine ensures_bind fun val => ?_
      cases val <;> rfl
    · rfl
  have halloc : l.allocEnv.Ensures fun r => r.2.dirty = true := by
    refine confined_bind.2 (ensures_lock.2 fun _ => ?_)
    exact confined_bind.2 (confined_mono (hinit _) fun _ h => h)
  refine confined_bind.2 (confined_mono halloc fun r hr => ?_)
  dsimp only
  split
  · exact confined_bind.2 (confined_bind.2 (ensures_lock.2 fun _ => hr))
  · exact hr

/-! ## Runs -/

/-- A system that refuses the queries for some parameters and answers everything else. -/
def cacheHandler (g : Global) (refuse : CfgIndex → Bool) : Handler SysCall SysAns CacheWorld
  | .setCfg _ _ _, _ => none
  | .getCfg _ idx, u => some (if refuse idx then none else u.cfg.dev.getCfg g idx, u)
  | .toattn w, u => some (u.cfg.gains w, u)
  | .dscMessage _ _, u => some ((0, some (u.dsc.setWidth 64)), u)
  | c, u => (granting c 3).map fun r => (r.1, u)

theorem cacheHandler_serves {refuse : CfgIndex → Bool} (c : SysCall) (u : CacheWorld)
    (x : SysAns c) (u' : CacheWorld) (h : cacheHandler g refuse c u = some (x, u')) :
    cacheServe g c x u u' := by
  cases c with
  | setCfg => cases h
  | getCfg f idx =>
    obtain ⟨rfl, rfl⟩ := Prod.mk.inj (Option.some.inj h)
    refine ⟨?_, rfl⟩
    split
    · exact .inl rfl
    · exact .inr rfl
  | toattn w =>
    obtain ⟨rfl, rfl⟩ := Prod.mk.inj (Option.some.inj h)
    exact ⟨rfl, rfl⟩
  | dscMessage msg val =>
    obtain ⟨rfl, rfl⟩ := Prod.mk.inj (Option.some.inj h)
    cases msg with
    | getDsc => exact ⟨fun _ => rfl, rfl⟩
    | getFrev => rfl
    | _ => exact .inl rfl
  | hang | fault => exact x.elim
  | _ =>
    simp only [cacheHandler, Option.map_eq_some_iff, Prod.mk.injEq] at h
    obtain ⟨-, -, -, rfl⟩ := h
    rfl

/-- When it refuses nothing, it refuses no query for a mirrored value. -/
theorem cacheHandler_answers (c : SysCall) (u : CacheWorld) (x : SysAns c) (u' : CacheWorld)
    (h : cacheHandler g (fun _ => false) c u = some (x, u')) : ¬Refused ⟨c, x⟩ := by
  cases c with
  | getCfg f idx =>
    obtain ⟨rfl, rfl⟩ := Prod.mk.inj (Option.some.inj h)
    rintro ⟨hi, hx⟩
    cases idx with
    | sr | sp | xoffset | yoffset | qoffset | kx | ky | bcdXoffset | bcdYoffset => cases hx
    | _ => cases hi
  | dscMessage msg val =>
    obtain ⟨rfl, rfl⟩ := Prod.mk.inj (Option.some.inj h)
    exact fun h => h rfl
  | pllGetstatus =>
    obtain ⟨rfl, rfl⟩ := Prod.mk.inj (Option.some.inj h)
    exact fun h => h rfl
  | _ => exact id

/-- The library of a process with a connection in the mode DD, before it takes a second handle of
the environment. -/
def connectedDd : Lib where
  env :=
    { usageCount := 1, mutex := false, evaction := false, connectionCount := 1, head := some 4
      fd := some ⟨3, .rdonly⟩, superuser := 0 }
  heap p := if p = 4 then some { connectionId := 1, mode := .dd, fd := some ⟨4, .rdonly⟩ } else none
  lastId := 1
  decimation := 1
  cache := Lib.loaded.cache
  cacheMutex := false
  dirty := false

/-- The device after its driver was loaded, nothing pending. -/
def cacheStart : CacheWorld := ⟨cfgStart, 0, []⟩

/-- A read of one atom. -/
def readDdOp : LibOp := .call (.read (.con 4) (some "dd") 1)

def noTransform : Transform := fun _ _ _ _ => some fun _ => []

/-- The library with the second handle. -/
def attendedDd : Lib :=
  { connectedDd with
    env := { connectedDd.env with usageCount := 2 }
    decimation := 500
    dirty := true }

set_option maxRecDepth 4000 in
theorem connectedDd_allochandle : ∃ tr, (connectedDd.allochandle .env .null).Runs tr
    ((cspiOk, .env), attendedDd) := by
  have he : (connectedDd.allochandle .env .null).exec (cacheHandler brilliance fun _ => false)
      cacheStart = some (((cspiOk, .env), attendedDd), cacheStart, _) := rfl
  exact ⟨_, exec_runs he⟩

set_option maxRecDepth 4000 in
theorem read_refused : ((libStep noTransform readDdOp attendedDd).exec
    (cacheHandler brilliance (· = .kx)) cacheStart).map
      (fun r => (r.1.2.dirty, r.1.2.cache.kx, r.2.1.pending, r.2.1.cfg.dev.param .kx)) =
    some (false, 0, [], 10000000) := by
  decide

set_option maxRecDepth 4000 in
theorem read_answered : ((libStep noTransform readDdOp attendedDd).exec
    (cacheHandler brilliance fun _ => false) cacheStart).isSome := by
  decide

/-! ## All runs -/

/-- **The cache is coherent.** From the allocation of an environment handle on, if every read that
finds the cache marked refreshes it, with all its queries answered, or has an announcement pending
that will mark the cache again, and nothing from outside changes the switch of the spike removal
while the cache is not marked and will not be, then whenever nothing is pending the cache is marked
or holds the values of the device, and every read of turn-by-turn data that succeeds with nothing
pending has transformed its atoms with them. -/
theorem cache_coherent (tf : Transform) (g : Global) {start l : Lib} {h : Handle}
    {tr : List SysEvent} {r : ℤ × Handle} (hstart : (start.allochandle .env h).Runs tr (r, l))
    {u : CacheWorld} {os : List (Occurrence LibOp LibResult Lib CacheWorld SysEvent)}
    {w : Lib × CacheWorld}
    (hh : Interleaved (libStep tf) (cacheServe g) (CacheOutside g) (l, u) os w)
    (hG : ∀ o ∈ os, Heeded o) :
    (w.2.pending = [] → w.1.dirty = true ∨ Coherent w.1.cache w.2) ∧
      ∀ m, .move m ∈ os → Calibrated tf m := by
  have hd : l.dirty = true := hstart.of_ensures allochandle_marks
  obtain ⟨hcal, hatt⟩ := hh.rule (I := fun w => Attended w.1 w.2) (P := Calibrated tf)
    (fun m hm h hG => attended_step hm h hG) (fun _ _ ho h hG => attended_outside ho h hG)
    (.inl hd) hG
  exact ⟨hatt.of_quiet, hcal⟩

theorem cache_coherent_ddRead : ∃ os w, Interleaved (libStep noTransform) (cacheServe brilliance)
      (CacheOutside brilliance) (attendedDd, cacheStart) os w ∧ os ≠ [] ∧
    (w.2.pending = [] → w.1.dirty = true ∨ Coherent w.1.cache w.2) ∧
      ∀ m, .move m ∈ os → Calibrated noTransform m := by
  obtain ⟨tr, hstart⟩ := connectedDd_allochandle
  obtain ⟨⟨⟨x, l⟩, u, tr'⟩, he⟩ := Option.isSome_iff_exists.1 read_answered
  have hrun : Interleaved (libStep noTransform) (cacheServe brilliance) (CacheOutside brilliance)
      (attendedDd, cacheStart) _ (l, u) :=
    Interleaved.exec cacheHandler_serves (Interleaved.nil _) readDdOp he
  have hanswered : ∀ e ∈ tr', ¬Refused e := Served.forall (exec_served cacheHandler_answers he)
  refine ⟨_, _, hrun, by simp, cache_coherent noTransform brilliance hstart hrun fun o ho => ?_⟩
  obtain rfl := List.mem_singleton.1 ho
  exact fun _ _ _ => ⟨rfl, hanswered⟩

/-- After a read whose refresh failed, with nothing pending, the cache is neither marked nor
coherent. -/
theorem cache_not_coherent : ¬∀ (tf : Transform) (g : Global) (start l : Lib) (h : Handle)
    (tr : List SysEvent) (r : ℤ × Handle), (start.allochandle .env h).Runs tr (r, l) →
    ∀ (u : CacheWorld) (os : List (Occurrence LibOp LibResult Lib CacheWorld SysEvent))
      (w : Lib × CacheWorld),
      Interleaved (libStep tf) (cacheServe g) (CacheOutside g) (l, u) os w →
      (w.2.pending = [] → w.1.dirty = true ∨ Coherent w.1.cache w.2) ∧
        ∀ m, .move m ∈ os → Calibrated tf m := by
  intro h
  obtain ⟨tr, hstart⟩ := connectedDd_allochandle
  obtain ⟨⟨⟨x, l⟩, u, tr'⟩, he, hr⟩ := Option.map_eq_some_iff.1 read_refused
  simp only [Prod.mk.injEq] at hr
  obtain ⟨hd, hkx, hp, hdev⟩ := hr
  have hrun : Interleaved (libStep noTransform) (cacheServe brilliance) (CacheOutside brilliance)
      (attendedDd, cacheStart) _ (l, u) :=
    Interleaved.exec cacheHandler_serves (Interleaved.nil _) readDdOp he
  rcases (h _ _ _ _ _ _ _ hstart _ _ _ hrun).1 hp with hd' | hc
  · rw [show l.dirty = false from hd] at hd'
    cases hd'
  · have hkx' : l.cache.kx = u.cfg.dev.param .kx := hc.kx
    rw [hkx, hdev] at hkx'
    exact absurd hkx' (by decide)

end LiberaDaq.Calibration
