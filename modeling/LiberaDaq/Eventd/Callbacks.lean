import LiberaDaq.Cspi.Handles
import LiberaDaq.Eventd.Dispatch

/-!
# Callbacks

The event thread of a process reads the messages of its event FIFO one after the other and hands
each to the handlers of the connections, from the head of their list on, until one returns `0`.
Together with the daemon, which writes a message for every listener that wants an event, this makes
a system of two programs: the `Site` of one process.

A handler is called for an event only if the mask of its connection has the event, and no more
often than there are messages about the event. So it is called at most once as long as no event
finds two listeners of the process that want it (`callbacks_once`).
-/

namespace LiberaDaq.Eventd

open LiberaDaq.Interaction LiberaDaq.Cspi LiberaDaq.Memory Prog

/-! ## The event thread -/

/-- The calls of the event thread: the handler of a connection, and an access that does not
return. -/
inductive ThreadCall
  | handler (p : ℕ) (c : Connection) (hdr : EventHdr)
  | stuck

/-- A handler returns an `int`. -/
abbrev ThreadAns : ThreadCall → Type
  | .handler _ _ _ => ℤ
  | .stuck => Empty

/-- The programs of the event thread. -/
abbrev ThreadProg := Prog ThreadCall ThreadAns

/-- A call of the event thread. -/
abbrev thread (c : ThreadCall) : ThreadProg (ThreadAns c) := Prog.perform c

/-- The event thread does not get any further. -/
def stuck : ThreadProg Unit := do
  let e ← thread .stuck
  e.elim

/-- The mask has the event. -/
def masked (hdr : EventHdr) (mask : Bitmask) : Bool :=
  hdr.id.setWidth 64 &&& mask = hdr.id.setWidth 64

/-- The loop of `event_thread` over the connections, from a pointer on, for a number of rounds. -/
def eventLoop (l : Lib) (hdr : EventHdr) : ℕ → Option ℕ → ThreadProg Unit
  | _, none => Pure.pure ()
  | 0, some _ => stuck
  | n + 1, some p =>
    match l.heap p with
    | none => stuck
    | some c =>
      if c.handler.isSome && masked hdr c.eventMask then do
        let rc ← thread (.handler p c hdr)
        if rc = 0 then Pure.pure () else eventLoop l hdr n c.next
      else eventLoop l hdr n c.next

/-- The connection whose handler a call is. -/
def ThreadCall.con : ThreadCall → ℕ
  | .handler p _ _ => p
  | .stuck => 0

/-- The handler is called for an event that its connection's mask has. -/
def ThreadCall.Wanted : ThreadCall → Prop
  | .handler _ c hdr => masked hdr c.eventMask = true
  | .stuck => True

variable {l l' : Lib} {hdr : EventHdr} {ps qs : List ℕ} {n : ℕ} {tf : Transform}

/-- The loop calls the handlers of the connections in their order, each at most once, and only those
whose mask has the event. -/
theorem eventLoop_calls (h : l.Listed ps) (hq : qs <:+ ps) {tr : List (Event ThreadCall ThreadAns)}
    (hr : (eventLoop l hdr n qs.head?).Runs tr ()) :
    (tr.map fun ev => ev.1.con).Sublist qs ∧ ∀ ev ∈ tr, ev.1.Wanted := by
  induction n generalizing qs tr with
  | zero =>
    cases qs with
    | nil =>
      obtain ⟨rfl, -⟩ := (runs_pure (r := ())).1 hr
      simp
    | cons p qs =>
      obtain ⟨e, -⟩ := runs_call.1 hr
      exact Empty.elim e
  | succ n ih =>
    cases qs with
    | nil =>
      obtain ⟨rfl, -⟩ := (runs_pure (r := ())).1 hr
      simp
    | cons p qs =>
      have hqs : qs <:+ ps := (List.suffix_cons p qs).trans hq
      rw [List.head?_cons, eventLoop] at hr
      split at hr
      · obtain ⟨e, -⟩ := runs_call.1 hr
        exact Empty.elim e
      · next c hc =>
        rw [h.next hq hc] at hr
        split at hr
        · next hcall =>
          simp only [Bool.and_eq_true] at hcall
          obtain ⟨rc, tr', rfl, hr⟩ := hr
          change Runs (if rc = 0 then Pure.pure () else eventLoop l hdr n qs.head?) tr' () at hr
          split at hr
          · obtain ⟨rfl, -⟩ := hr
            simpa [ThreadCall.con, ThreadCall.Wanted] using hcall.2
          · obtain ⟨hsub, hwant⟩ := ih hqs hr
            refine ⟨hsub.cons_cons p, fun ev hev => ?_⟩
            rcases List.mem_cons.1 hev with rfl | hev
            · exact hcall.2
            · exact hwant ev hev
        · obtain ⟨hsub, hwant⟩ := ih hqs hr
          exact ⟨hsub.cons p, hwant⟩

/-- The loop comes to its end for as many rounds as there are connections. -/
theorem eventLoop_ends (h : l.Listed ps) (hq : qs <:+ ps) :
    (eventLoop l hdr qs.length qs.head?).wp (fun _ _ => True) fun _ => True := by
  induction qs with
  | nil => trivial
  | cons p qs ih =>
    have ih := ih ((List.suffix_cons p qs).trans hq)
    obtain ⟨c, hc⟩ := Option.isSome_iff_exists.1 (h.isSome.2 (hq.subset List.mem_cons_self))
    rw [List.head?_cons, List.length_cons, eventLoop, hc]
    dsimp only
    rw [h.next hq hc]
    split
    · refine ⟨⟨(0 : ℤ), trivial⟩, fun rc _ => ?_⟩
      change wp _ (if rc = (0 : ℤ) then Pure.pure () else eventLoop l hdr qs.length qs.head?) _
      split
      · trivial
      · exact ih
    · exact ih

/-! ## The site of a process -/

/-- The daemon with the world, the library of one process and the calls of its handlers so far, each
with the number of the device event that it is about. -/
structure Site where
  listeners : List Listener
  world : World
  lib : Lib
  log : List (ℕ × ThreadCall)

/-- The steps at the site of the process `pid`: of the daemon, of the processes on their FIFOs, of
the library, and of the event thread, which takes a message off the FIFO and hands it on. -/
inductive SiteStep (tf : Transform) (pid : Word) : Site → Option DaemonOp → Site → Prop
  | daemon {m : DaemonMove World} (l : Lib) (log : List (ℕ × ThreadCall)) :
      m.ServedBy step serve →
      SiteStep tf pid ⟨m.before.1, m.before.2, l, log⟩ (some m.op) ⟨m.after.1, m.after.2, l, log⟩
  | drift {s : Site} {w : World} : Drift s.world w → SiteStep tf pid s none { s with world := w }
  | lib {m : LibMove} (ls : List Listener) (w : World) (log : List (ℕ × ThreadCall)) :
      m.Valid (libStep tf) → (∀ ev ∈ m.events, mallocFresh ev.1 ev.2) →
      SiteStep tf pid ⟨ls, w, m.before, log⟩ none ⟨ls, w, m.after, log⟩
  | thread {s : Site} {k n : ℕ} {hdr : EventHdr} {ms : List (ℕ × EventHdr)}
      {tr : List (Event ThreadCall ThreadAns)} : s.world.fifo pid = (k, hdr) :: ms →
      (eventLoop (s.lib.signalHandlerHook hdr) hdr n s.lib.env.head).Runs tr () →
      SiteStep tf pid s none { s with
        world := { s.world with fifo := Function.update s.world.fifo pid ms }
        lib := s.lib.signalHandlerHook hdr
        log := s.log ++ tr.map fun ev => (k, ev.1) }

/-- The site when the daemon and the process start. -/
structure Site.Initial (pid : Word) (s : Site) : Prop where
  listeners : s.listeners = []
  fifo : s.world.fifo pid = []
  lib : s.lib = Lib.loaded
  log : s.log = []

/-- An event that is dispatched finds one listener of the process at most that wants it. -/
def OneCopy (pid : Word) (s : Site) (op : Option DaemonOp) : Prop :=
  ∀ e, op = some (.event e) → wanting e s.listeners pid ≤ 1

/-- The runs at the site whose steps meet a condition. -/
abbrev SiteRun (tf : Transform) (pid : Word) (G : Site → Option DaemonOp → Prop) :
    Site → Site → Prop :=
  Relation.ReflTransGen fun s s' => ∃ op, SiteStep tf pid s op s' ∧ G s op

/-- The messages in the FIFO and the calls of the handlers are about different events, and about no
event twice. -/
structure SiteInv (pid : Word) (s : Site) : Prop where
  listed : ∃ ps, s.lib.Listed ps
  fifo_le : ∀ m ∈ s.world.fifo pid, m.1 ≤ s.world.serial
  log_le : ∀ x ∈ s.log, x.1 ≤ s.world.serial
  fifo_nodup : ((s.world.fifo pid).map Prod.fst).Nodup
  disjoint : ∀ m ∈ s.world.fifo pid, ∀ x ∈ s.log, x.1 ≠ m.1
  log_nodup : (s.log.map fun x => (x.1, x.2.con)).Nodup
  wanted : ∀ x ∈ s.log, x.2.Wanted

variable {s s' : Site} {pid : Word}

theorem Site.Initial.inv (h : s.Initial pid) : SiteInv pid s where
  listed := ⟨[], h.lib ▸ loaded_listed⟩
  fifo_le := by simp [h.fifo]
  log_le := by simp [h.log]
  fifo_nodup := by simp [h.fifo]
  disjoint := by simp [h.fifo]
  log_nodup := by simp [h.log]
  wanted := by simp [h.log]

/-- The FIFO with fewer messages. -/
theorem SiteInv.shrink (h : SiteInv pid s) {w : World} (hs : w.serial = s.world.serial)
    (hf : (w.fifo pid).Sublist (s.world.fifo pid)) : SiteInv pid { s with world := w } where
  listed := h.listed
  fifo_le := fun m hm => hs ▸ h.fifo_le m (hf.subset hm)
  log_le := fun x hx => hs ▸ h.log_le x hx
  fifo_nodup := h.fifo_nodup.sublist (hf.map Prod.fst)
  disjoint := fun m hm => h.disjoint m (hf.subset hm)
  log_nodup := h.log_nodup
  wanted := h.wanted

/-! ## The daemon at the site -/

/-- The calls of `handle_request`. -/
def isRequestCall : DaemonCall → Bool
  | .kill _ | .malloc | .setMask _ | .unlinkFifo _ | .exit => true
  | _ => false

theorem handleRequest_confined {r : EventRequest} {ls : List Listener} :
    (handleRequest r ls).Confined (fun c => isRequestCall c = true) fun _ => True := by
  have happly : (applyRequest r ls).Confined (fun c => isRequestCall c = true) fun _ => True := by
    unfold applyRequest
    split
    · unfold join
      split
      · trivial
      · refine ⟨rfl, fun ok => ?_⟩
        cases ok with
        | true => trivial
        | false => exact ⟨rfl, fun e => e.elim⟩
    · unfold leave
      split
      · exact ⟨rfl, fun _ => trivial⟩
      · trivial
  refine ⟨rfl, fun err => ?_⟩
  change Confined _ (if err ≠ none ∧ err ≠ some .eperm then Pure.pure (-1, ls) else _) _
  split
  · trivial
  · exact confined_seq happly fun _ => ⟨rfl, fun _ => trivial⟩

/-- A request writes no messages. -/
theorem request_fifo {m : DaemonMove World} {r : EventRequest} (hm : m.ServedBy step serve)
    (hop : m.op = .request r) : m.after.2.fifo = m.before.2.fifo ∧
      m.after.2.serial = m.before.2.serial := by
  have hconf : (step m.op m.before.1).Confined (fun c => isRequestCall c = true) fun _ => True := by
    rw [hop]
    exact handleRequest_confined
  refine (hm.of_wlp (wlp_keep (I := fun w => w.fifo = m.before.2.fifo ∧
    w.serial = m.before.2.serial) hconf (fun c x v v' hc hx hv => ?_) ⟨rfl, rfl⟩)).2
  have hv' : v'.fifo = v.fifo ∧ v'.serial = v.serial := by
    cases c with
    | setMask mask => rw [show v' = _ from hx.2]; exact ⟨rfl, rfl⟩
    | unlinkFifo pid =>
      rw [show v' = _ from hx]
      split <;> exact ⟨rfl, rfl⟩
    | exit => exact x.elim
    | kill pid => rw [show v' = _ from hx]; exact ⟨rfl, rfl⟩
    | malloc => rw [show v' = _ from hx]; exact ⟨rfl, rfl⟩
    | _ => cases hc
  exact ⟨hv'.1.trans hv.1, hv'.2.trans hv.2⟩

/-- An event writes a message for each listener that wants it at most. -/
theorem event_fifo {m : DaemonMove World} {e : EventHdr} (hm : m.ServedBy step serve)
    (hop : m.op = .event e) (pid : Word) : m.after.2.serial = m.before.2.serial + 1 ∧
      ∃ k ≤ wanting e m.before.1 pid, m.after.2.fifo pid = m.before.2.fifo pid ++
        List.replicate k (m.before.2.serial + 1, e) := by
  refine hm.of_wlp_record (Q := fun _ v => v.1.serial = m.before.2.serial + 1 ∧
    ∃ k ≤ wanting e m.before.1 pid, v.1.fifo pid = m.before.2.fifo pid ++
      List.replicate k (m.before.2.serial + 1, e)) ?_
  rw [hop]
  refine wlp_perform_bind.2 fun _ v₁ h₁ => ?_
  have hv₁ : v₁.1 = { m.before.2 with serial := m.before.2.serial + 1 } := h₁.1
  refine wlp_seq acknowledge_alerted fun _ v₂ h₂ => wlp_seq dispatch_spec fun ls' v₃ h₃ => ?_
  have hserial : v₂.1.serial = m.before.2.serial + 1 := by rw [h₂.1.serial, hv₁]
  have hfifo : v₂.1.fifo = m.before.2.fifo := by rw [h₂.2, hv₁]
  obtain ⟨k, hk, hcopies⟩ := h₃.copied pid
  exact ⟨h₃.alerted.serial.trans hserial, k, hk, by rw [hcopies, hserial, hfifo]⟩

theorem daemon_inv {m : DaemonMove World} {log : List (ℕ × ThreadCall)} (hm : m.ServedBy step serve)
    (h : SiteInv pid ⟨m.before.1, m.before.2, l, log⟩)
    (hone : OneCopy pid ⟨m.before.1, m.before.2, l, log⟩ (some m.op)) :
    SiteInv pid ⟨m.after.1, m.after.2, l, log⟩ := by
  cases hop : m.op with
  | request r =>
    obtain ⟨hfifo, hserial⟩ := request_fifo hm hop
    have hsmall := h.shrink (w := m.after.2) hserial (by rw [hfifo])
    exact ⟨hsmall.listed, hsmall.fifo_le, hsmall.log_le, hsmall.fifo_nodup, hsmall.disjoint,
      hsmall.log_nodup, hsmall.wanted⟩
  | event e =>
    obtain ⟨hserial, k, hk, hfifo⟩ := event_fifo hm hop pid
    have hk : k ≤ 1 := hk.trans (hone e (by rw [hop]))
    have hnew : ∀ x ∈ List.replicate k (m.before.2.serial + 1, e), x.1 = m.before.2.serial + 1 :=
      fun x hx => by rw [List.eq_of_mem_replicate hx]
    have hold : ∀ x ∈ m.before.2.fifo pid, x.1 ≤ m.before.2.serial := h.fifo_le
    have hlog : ∀ x ∈ log, x.1 ≤ m.before.2.serial := h.log_le
    refine ⟨h.listed, fun x hx => ?_, fun x hx => ?_, ?_, fun x hx y hy => ?_, h.log_nodup,
      h.wanted⟩
    · rw [hfifo] at hx
      rw [hserial]
      rcases List.mem_append.1 hx with hx | hx
      · exact (hold x hx).trans (Nat.le_succ _)
      · exact (hnew x hx).le
    · rw [hserial]
      exact (hlog x hx).trans (Nat.le_succ _)
    · rw [hfifo, List.map_append, List.map_replicate]
      refine List.Nodup.append h.fifo_nodup ?_ ?_
      · exact List.nodup_replicate.2 hk
      · intro x hx hx'
        obtain ⟨y, hy, rfl⟩ := List.mem_map.1 hx
        have hlt := hold y hy
        rw [List.eq_of_mem_replicate hx'] at hlt
        omega
    · rw [hfifo] at hx
      rcases List.mem_append.1 hx with hx | hx
      · exact h.disjoint x hx y hy
      · have hlt := hlog y hy
        rw [hnew x hx]
        omega

/-! ## Runs -/

theorem drift_shrinks {w w' : World} (h : Drift w w') (pid : Word) : w'.serial = w.serial ∧
    (w'.fifo pid).Sublist (w.fifo pid) := by
  cases h with
  | read p m ms hf =>
    refine ⟨rfl, ?_⟩
    by_cases hp : pid = p
    · subst hp
      rw [hf]
      simp
    · simp [Function.update_of_ne hp]
  | disconnect p =>
    refine ⟨rfl, ?_⟩
    by_cases hp : pid = p
    · simp [hp]
    · simp [Function.update_of_ne hp]
  | _ => exact ⟨rfl, List.Sublist.refl _⟩

theorem hook_listed (h : l.Listed ps) : (l.signalHandlerHook hdr).Listed ps := by
  unfold Lib.signalHandlerHook
  split
  · exact ⟨h.nodup, h.head, h.links, h.count⟩
  · exact h

theorem step_inv {op : Option DaemonOp} (h : SiteInv pid s) (hstep : SiteStep tf pid s op s')
    (hone : OneCopy pid s op) : SiteInv pid s' := by
  cases hstep with
  | daemon l log hm => exact daemon_inv hm h hone
  | drift hd => exact h.shrink (drift_shrinks hd pid).1 (drift_shrinks hd pid).2
  | lib ls w log hm hf =>
    obtain ⟨ps, hps⟩ := h.listed
    have hlisted := hm.of_wlp (served_allowing hf) (libStep_listed hps)
    exact ⟨hlisted, h.fifo_le, h.log_le, h.fifo_nodup, h.disjoint, h.log_nodup, h.wanted⟩
  | @thread _ k n hdr ms tr hf hr =>
    obtain ⟨ps, hps⟩ := h.listed
    have hps' : (s.lib.signalHandlerHook hdr).Listed ps := hook_listed hps
    rw [hps.head] at hr
    obtain ⟨hsub, hwant⟩ := eventLoop_calls hps' (List.suffix_refl ps) hr
    have hmem : (k, hdr) ∈ s.world.fifo pid := by simp [hf]
    have hrest : ∀ m ∈ ms, m ∈ s.world.fifo pid := fun m hm => by simp [hf, hm]
    have hnodup := h.fifo_nodup
    rw [hf, List.map_cons, List.nodup_cons] at hnodup
    have hnew : ∀ x ∈ tr.map fun ev => (k, ev.1), x.1 = k ∧ x.2.Wanted := by
      intro x hx
      obtain ⟨ev, hev, rfl⟩ := List.mem_map.1 hx
      exact ⟨rfl, hwant ev hev⟩
    have hother : ∀ m ∈ ms, m.1 ≠ k := fun m hm hk =>
      hnodup.1 (List.mem_map.2 ⟨m, hm, hk⟩)
    refine ⟨⟨ps, hps'⟩, fun m hm => ?_, fun x hx => ?_, ?_, fun m hm x hx => ?_, ?_, fun x hx => ?_⟩
    · simp only [Function.update_self] at hm
      exact h.fifo_le m (hrest m hm)
    · rcases List.mem_append.1 hx with hx | hx
      · exact h.log_le x hx
      · rw [(hnew x hx).1]
        exact h.fifo_le _ hmem
    · simpa only [Function.update_self] using hnodup.2
    · simp only [Function.update_self] at hm
      rcases List.mem_append.1 hx with hx | hx
      · exact h.disjoint m (hrest m hm) x hx
      · rw [(hnew x hx).1]
        exact (hother m hm).symm
    · rw [List.map_append]
      refine List.Nodup.append h.log_nodup ?_ ?_
      · have hpairs := (hsub.nodup hps.nodup).map (Prod.mk_right_injective k)
        rw [List.map_map] at hpairs ⊢
        exact hpairs
      · intro y hy hy'
        obtain ⟨x, hx, rfl⟩ := List.mem_map.1 hy
        obtain ⟨x', hx', heq⟩ := List.mem_map.1 hy'
        have hk : x.1 = k := by rw [← (hnew x' hx').1, ← congrArg Prod.fst heq]
        exact h.disjoint _ hmem x hx hk
    · rcases List.mem_append.1 hx with hx | hx
      · exact h.wanted x hx
      · exact (hnew x hx).2

/-- What a run whose steps meet the condition keeps. -/
theorem run_inv (h : SiteInv pid s) (hrun : SiteRun tf pid (OneCopy pid) s s') :
    SiteInv pid s' := by
  induction hrun with
  | refl => exact h
  | tail _ hstep ih =>
    obtain ⟨op, hstep, hone⟩ := hstep
    exact step_inv ih hstep hone

/-- **A handler is called once for an event, and only for an event of its mask**, in every run in
which no event finds two listeners of the process that want it. -/
theorem callbacks_once (h : s.Initial pid) (hrun : SiteRun tf pid (OneCopy pid) s s') :
    (s'.log.map fun x => (x.1, x.2.con)).Nodup ∧ ∀ x ∈ s'.log, x.2.Wanted :=
  have hinv := run_inv h.inv hrun
  ⟨hinv.log_nodup, hinv.wanted⟩

/-! ### Two connections of one process -/

/-- The step of a daemon that is granted everything. -/
theorem SiteStep.exec_daemon (op : DaemonOp) {ls ls' : List Listener} {w w' : World} {rc : ℤ}
    {t : Trace} (he : (step op ls).exec generous w = some ((rc, ls'), w', t))
    (log : List (ℕ × ThreadCall)) :
    SiteStep tf pid ⟨ls, w, l, log⟩ (some op) ⟨ls', w', l, log⟩ :=
  .daemon (m := ⟨op, (ls, w), t, rc, (ls', w')⟩) l log
    ⟨Prog.exec_runs he, Prog.exec_served generous_serves he⟩

/-- The step of a library that is granted everything. -/
theorem SiteStep.exec_lib (op : LibOp) {n n' : ℕ} {r : LibResult} {t : List SysEvent}
    (he : (libStep tf op l).exec granting n = some ((r, l'), n', t))
    (hf : ∀ ev ∈ t, mallocFresh ev.1 ev.2) (ls : List Listener) (w : World)
    (log : List (ℕ × ThreadCall)) : SiteStep tf pid ⟨ls, w, l, log⟩ none ⟨ls, w, l', log⟩ :=
  .lib (m := ⟨op, l, t, r, l'⟩) ls w log (Prog.exec_runs he) hf

/-- The handlers return `1`. -/
def persistent : Handler ThreadCall ThreadAns Unit
  | .handler _ _ _, u => some ((1 : ℤ), u)
  | .stuck, _ => none

/-- The site of a process whose library and whose daemon were just started. -/
def Site.start (pid : Word) : Site := ⟨[], World.single pid, Lib.loaded, []⟩

theorem Site.start_initial {pid : Word} : (Site.start pid).Initial pid := ⟨rfl, rfl, rfl, rfl⟩

/-- Each of two connections of a process is called twice for one event. -/
theorem handler_called_twice : ¬∀ (tf : Transform) (pid : Word) (s s' : Site), s.Initial pid →
    SiteRun tf pid (fun _ _ => True) s s' →
    (s'.log.map fun x => (x.1, x.2.con)).Nodup ∧ ∀ x ∈ s'.log, x.2.Wanted := by
  intro h
  let tf : Transform := fun _ _ _ _ => none
  let R (s s' : Site) : Prop := SiteRun tf 1 (fun _ _ => True) s s'
  have henv : R (Site.start 1) _ := .single ⟨_, SiteStep.exec_lib (n := 1)
    (.call (.allochandle .env .null)) rfl (by decide) _ _ _, trivial⟩
  have hcon := henv.tail ⟨_, SiteStep.exec_lib (n := 2)
    (.call (.allochandle .con .env)) rfl (by decide) _ _ _, trivial⟩
  have hcons := hcon.tail ⟨_, SiteStep.exec_lib (n := 3)
    (.call (.allochandle .con .env)) rfl (by decide) _ _ _, trivial⟩
  have hhears := hcons.tail ⟨_, SiteStep.exec_lib (n := 4) (.listen 2 4) rfl (by decide) _ _ _,
    trivial⟩
  have hhear := hhears.tail ⟨_, SiteStep.exec_lib (n := 6) (.listen 3 4) rfl (by decide) _ _ _,
    trivial⟩
  have hjoins := hhear.tail ⟨_, SiteStep.exec_daemon (.request ⟨1, 1, 4⟩) rfl _, trivial⟩
  have hjoin := hjoins.tail ⟨_, SiteStep.exec_daemon (.request ⟨1, 2, 4⟩) rfl _, trivial⟩
  have hevent := hjoin.tail ⟨_, SiteStep.exec_daemon (.event ⟨4, 0⟩) rfl _, trivial⟩
  -- the FIFO has two copies of the event
  have honce := hevent.tail ⟨_, SiteStep.thread (n := 2) rfl
    (Prog.exec_runs (h := persistent) (s := ()) rfl), trivial⟩
  have htwice := honce.tail ⟨_, SiteStep.thread (n := 2) rfl
    (Prog.exec_runs (h := persistent) (s := ()) rfl), trivial⟩
  have hnodup := (h tf 1 _ _ Site.start_initial htwice).1
  have hcalls : ¬[((1 : ℕ), (3 : ℕ)), (1, 2), (1, 3), (1, 2)].Nodup := by decide
  exact hcalls hnodup

/-- The one connection of a process is called for an event. -/
theorem callbacks_once_single : ∃ tf s,
    SiteRun tf 1 (OneCopy 1) (Site.start 1) s ∧ s.log.map (fun x => (x.1, x.2.con)) = [(1, 2)] ∧
    (s.log.map fun x => (x.1, x.2.con)).Nodup ∧ ∀ x ∈ s.log, x.2.Wanted := by
  let tf : Transform := fun _ _ _ _ => none
  let R (s s' : Site) : Prop := SiteRun tf 1 (OneCopy 1) s s'
  have henv : R (Site.start 1) _ := .single ⟨_, SiteStep.exec_lib (n := 1)
    (.call (.allochandle .env .null)) rfl (by decide) _ _ _, fun _ he => (nomatch he)⟩
  have hcon := henv.tail ⟨_, SiteStep.exec_lib (n := 2)
    (.call (.allochandle .con .env)) rfl (by decide) _ _ _, fun _ he => (nomatch he)⟩
  have hhears := hcon.tail ⟨_, SiteStep.exec_lib (n := 3) (.listen 2 4) rfl (by decide) _ _ _,
    fun _ he => (nomatch he)⟩
  have hjoin := hhears.tail ⟨_, SiteStep.exec_daemon (.request ⟨1, 1, 4⟩) rfl _,
    fun _ he => (nomatch he)⟩
  have hevent := hjoin.tail ⟨_, SiteStep.exec_daemon (.event ⟨4, 0⟩) rfl _,
    fun e he => by
      obtain rfl : ⟨4, 0⟩ = e := DaemonOp.event.inj (Option.some.inj he)
      decide⟩
  have honce := hevent.tail ⟨_, SiteStep.thread (n := 2) rfl
    (Prog.exec_runs (h := persistent) (s := ()) rfl), fun _ he => (nomatch he)⟩
  exact ⟨tf, _, honce, rfl, callbacks_once Site.start_initial honce⟩

end LiberaDaq.Eventd
