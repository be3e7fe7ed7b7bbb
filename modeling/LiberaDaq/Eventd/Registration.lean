import LiberaDaq.Cspi.Handles
import LiberaDaq.Eventd.Daemon

/-!
# Registrations

The library of a process registers its connections with the daemon, which keeps a listener for each.
Here the daemon is the environment of the library: it handles every request as it is written, and in
between the events and the requests of other processes.

`cspi_freehandle` unregisters a connection only when it takes the last one off the list, together
with the event thread. So a listener outlives its connection unless the connection is the last one
and the request reaches the daemon (`registration_ends_iff`).
-/

namespace LiberaDaq.Eventd

open LiberaDaq.Interaction LiberaDaq.Cspi Prog

variable {r : EventRequest} {ls ls' : List Listener} {pid uid mask : Word} {e : EventHdr}

/-! ## The listeners that the daemon holds -/

/-- The connections that have a listener. -/
def keys (ls : List Listener) : List (Word × Word) := ls.map fun q => (q.pid, q.uid)

/-- The connections of one process that have a listener. -/
def keysOf (pid : Word) (ls : List Listener) : List (Word × Word) := (keys ls).filter (·.1 = pid)

theorem mem_keysOf {k : Word × Word} : k ∈ keysOf pid ls ↔ k ∈ keys ls ∧ k.1 = pid := by
  simp [keysOf]

theorem listener_is_iff {q : Listener} : q.is pid uid = true ↔ (q.pid, q.uid) = (pid, uid) := by
  simp [Listener.is]

theorem findListener_isSome : (findListener pid uid ls).isSome ↔ (pid, uid) ∈ keys ls := by
  simp [findListener, keys, listener_is_iff]

theorem keys_updateMask : keys (updateMask pid uid mask ls) = keys ls := by
  induction ls with
  | nil => rfl
  | cons q ls ih =>
    unfold updateMask
    split
    · rfl
    · exact congrArg (_ :: ·) ih

theorem keys_takeOff : keys (takeOff pid uid ls) = (keys ls).erase (pid, uid) := by
  have his : (fun q : Listener => q.is pid uid) = (· == (pid, uid)) ∘ fun q => (q.pid, q.uid) := by
    funext q
    rw [Bool.eq_iff_iff, listener_is_iff]
    simp
  rw [takeOff, keys, his, ← List.eraseP_map, List.erase_eq_eraseP']
  rfl

/-! ## Requests -/

/-- The list after a request of a process that is there. -/
def registered (r : EventRequest) (ls : List Listener) : List Listener :=
  if r.mask ≠ 0 then
    if (findListener r.pid r.uid ls).isSome then updateMask r.pid r.uid r.mask ls
    else ⟨r.pid, r.uid, r.mask⟩ :: ls
  else takeOff r.pid r.uid ls

theorem join_ensures (hm : r.mask ≠ 0) : (join r ls).Ensures fun ls' => ls' = registered r ls := by
  unfold join registered
  rw [if_pos hm]
  split
  · trivial
  · refine ⟨trivial, fun ok => ?_⟩
    cases ok with
    | true => exact confined_pure.2 rfl
    | false => exact ⟨trivial, fun x => x.elim⟩

theorem leave_ensures (hm : ¬r.mask ≠ 0) :
    (leave r ls).Ensures fun ls' => ls' = registered r ls := by
  unfold leave registered
  rw [if_neg hm]
  split
  · exact ⟨trivial, fun _ => confined_pure.2 rfl⟩
  · next hf =>
    have hnone : findListener r.pid r.uid ls = none := by simpa using hf
    have hsame : takeOff r.pid r.uid ls = ls :=
      List.eraseP_of_forall_not fun q hq => by simpa using List.find?_eq_none.1 hnone q hq
    exact confined_pure.2 hsame.symm

theorem applyRequest_ensures : (applyRequest r ls).Ensures fun ls' => ls' = registered r ls := by
  unfold applyRequest
  split
  · next hm => exact join_ensures hm
  · next hm => exact leave_ensures hm

/-- The answers to a daemon that has memory, about a process that is there. -/
def processThere : (c : DaemonCall) → DaemonAns c → Prop
  | .kill _, err => err = none ∨ err = some .eperm
  | .malloc, ok => ok = true
  | _, _ => True

/-- The daemon handled a request of a process that is there. -/
def Handled (r : EventRequest) (ls ls' : List Listener) : Prop :=
  ∃ tr rc, (handleRequest r ls).Runs tr (rc, ls') ∧ ∀ ev ∈ tr, processThere ev.1 ev.2

theorem Handled.eq (h : Handled r ls ls') : ls' = registered r ls := by
  obtain ⟨tr, rc, hr, hthere⟩ := h
  refine hr.of_wlp (served_allowing hthere) (Q := fun x _ => x.2 = registered r ls) ?_
  refine wlp_perform_bind.2 fun err _ herr => ?_
  have hgo : ¬(err ≠ none ∧ err ≠ some .eperm) := fun hne => herr.elim hne.1 hne.2
  rw [if_neg hgo]
  exact wlp_seq (wlp_of_ensures applyRequest_ensures) fun ls₁ _ h₁ _ _ _ => h₁

theorem applyRequest_there : (applyRequest r ls).wp processThere fun _ => True := by
  unfold applyRequest
  split
  · unfold join
    split
    · trivial
    · refine ⟨⟨true, rfl⟩, fun ok hok => ?_⟩
      obtain rfl : ok = true := hok
      trivial
  · unfold leave
    split
    · exact ⟨⟨none, trivial⟩, fun _ _ => trivial⟩
    · trivial

/-- The request of a process that is there can be handled. -/
theorem handled_registered : Handled r ls (registered r ls) := by
  have hwp : (handleRequest r ls).wp processThere fun _ => True := by
    refine ⟨⟨none, .inl rfl⟩, fun err herr => ?_⟩
    have hgo : ¬(err ≠ none ∧ err ≠ some .eperm) := fun hne => herr.elim hne.1 hne.2
    change wp _ (if err ≠ none ∧ err ≠ some .eperm then Pure.pure (-1, ls) else _) _
    rw [if_neg hgo]
    exact wp_bind.2 (wp_mono applyRequest_there fun _ _ => ⟨⟨none, trivial⟩, fun _ _ => trivial⟩)
  obtain ⟨tr, ⟨rc, ls'⟩, hr, hthere, -⟩ := exists_runs_of_wp hwp
  have hhandled : Handled r ls ls' := ⟨tr, rc, hr, hthere⟩
  rwa [← hhandled.eq]

/-! ## What else happens to the list -/

theorem dispatch_sublist : (dispatch e ls).Ensures fun ls' => ls'.Sublist ls := by
  induction ls with
  | nil => exact List.Sublist.refl []
  | cons q ls ih =>
    refine ensures_bind fun gone => ?_
    split
    · exact ensures_bind fun _ => confined_mono ih fun ls' h => h.cons q
    · exact confined_bind.2 (confined_mono ih fun ls' h => h.cons_cons q)

/-- The daemon handles an event, or a request of another process. -/
def Aside (pid : Word) (ls ls' : List Listener) : Prop :=
  ∃ op tr rc, (∀ r, op = .request r → r.pid ≠ pid) ∧ (step op ls).Runs tr (rc, ls')

theorem keysOf_registered_of_ne (h : r.pid ≠ pid) :
    keysOf pid (registered r ls) = keysOf pid ls := by
  unfold registered
  split
  · split
    · rw [keysOf, keys_updateMask, keysOf]
    · exact List.filter_cons_of_neg (by simpa using h)
  · have hout : (r.pid, r.uid) ∉ keysOf pid ls := fun hk => h (mem_keysOf.1 hk).2
    rw [keysOf, keys_takeOff, ← List.erase_filter]
    exact List.erase_of_not_mem hout

/-- The connections of the process lose listeners at most. -/
theorem Aside.sublist (h : Aside pid ls ls') : (keysOf pid ls').Sublist (keysOf pid ls) := by
  obtain ⟨op, tr, rc, hop, hr⟩ := h
  cases op with
  | request r =>
    have heq : ls' = registered r ls ∨ ls' = ls := by
      refine hr.of_ensures (Q := fun x => x.2 = registered r ls ∨ x.2 = ls) ?_
      refine ⟨trivial, fun err => ?_⟩
      change Confined _ (if err ≠ none ∧ err ≠ some .eperm then Pure.pure (-1, ls) else _) _
      split
      · exact .inr rfl
      · exact confined_bind.2 (confined_mono applyRequest_ensures fun ls₁ h₁ =>
          ⟨trivial, fun _ => .inl h₁⟩)
    rcases heq with rfl | rfl
    · rw [keysOf_registered_of_ne (hop r rfl)]
    · exact .refl _
  | event e =>
    have hsub : ls'.Sublist ls := by
      refine hr.of_ensures (Q := fun x => x.2.Sublist ls) ?_
      exact ensures_bind fun _ => ensures_bind fun _ =>
        confined_bind.2 (confined_mono dispatch_sublist fun _ h₁ => h₁)
    exact (hsub.map _).filter _

/-! ## The daemon below the library -/

/-- The daemon as the library of the process `pid` finds it: a request that could be written is
handled. -/
def registry (pid : Word) : Serves SysCall SysAns (List Listener)
  | .writeRequest _ r, ok, ls, ls' => if ok then Handled r ls ls' else ls' = ls
  | .getpid, x, ls, ls' => x = pid ∧ ls' = ls
  | _, _, ls, ls' => ls' = ls

/-- The lives of the library of the process `pid` and the daemon. -/
abbrev Lives (tf : Transform) (pid : Word) := Joint (libStep tf) (registry pid) (Aside pid)

/-- A step of the library with the daemon. -/
abbrev RegistryMove := Move LibOp LibResult (Lib × List Listener) SysEvent

/-- A connection of the process has one listener at most. -/
def Single (pid : Word) (ls : List Listener) : Prop := (keysOf pid ls).Nodup

variable {tf : Transform} {l : Lib} {p : ℕ} {c : Connection} {m : RegistryMove}

theorem registered_single (h : Single pid ls) : Single pid (registered r ls) := by
  by_cases hp : r.pid = pid
  · unfold registered
    split
    · split
      · rwa [Single, keysOf, keys_updateMask]
      · next hf =>
        rw [findListener_isSome] at hf
        have hnew : (r.pid, r.uid) ∉ keysOf pid ls := fun hk => hf (mem_keysOf.1 hk).1
        have hcons : keysOf pid (⟨r.pid, r.uid, r.mask⟩ :: ls) = (r.pid, r.uid) :: keysOf pid ls :=
          List.filter_cons_of_pos (by simpa using hp)
        rw [Single, hcons]
        exact List.nodup_cons.2 ⟨hnew, h⟩
    · rw [Single, keysOf, keys_takeOff, ← List.erase_filter]
      exact h.erase _
  · rwa [Single, keysOf_registered_of_ne hp]

theorem registry_single {c : SysCall} {x : SysAns c} (hs : registry pid c x ls ls')
    (h : Single pid ls) : Single pid ls' := by
  cases c with
  | writeRequest f r =>
    have hs : if x then Handled r ls ls' else ls' = ls := hs
    split at hs
    · rw [hs.eq]
      exact registered_single h
    · rwa [hs]
  | getpid => rwa [show ls' = ls from hs.2]
  | _ => rwa [show ls' = ls from hs]

theorem move_single (hm : m.ServedBy (libStep tf) (registry pid)) (h : Single pid m.before.2) :
    Single pid m.after.2 :=
  (hm.of_wlp (wlp_keep (I := Single pid) (ensures_true _)
    (fun _ _ _ _ _ hs hv => registry_single hs hv) h)).2

theorem aside_single (h : Single pid ls) (ha : Aside pid ls ls') : Single pid ls' :=
  h.sublist ha.sublist

/-! ## A connection is freed -/

/-- The daemon got the request. -/
def Accepted (r : EventRequest) (t : List SysEvent) : Prop := ∃ f, ⟨.writeRequest f r, true⟩ ∈ t

theorem accepted_append {t : List SysEvent} {ev : SysEvent} :
    Accepted r (t ++ [ev]) ↔ Accepted r t ∨ ∃ f, ev = ⟨.writeRequest f r, true⟩ := by
  simp [Accepted, exists_or, eq_comm]

/-- What a registration leaves of the listeners. -/
structure Requested (r : EventRequest) (ls : List Listener) (v : List Listener × List SysEvent) :
    Prop where
  accepted : Accepted r v.2 → v.1 = registered r ls
  refused : ¬Accepted r v.2 → v.1 = ls

/-- A call that is no request leaves that as it is. -/
theorem Requested.other {v v' : List Listener × List SysEvent} {s : SysCall} {x : SysAns s}
    (h : Requested r ls v) (hls : v'.1 = v.1) (ht : v'.2 = v.2 ++ [⟨s, x⟩])
    (hs : ∀ f, s ≠ .writeRequest f r) : Requested r ls v' := by
  have hsame : Accepted r v'.2 ↔ Accepted r v.2 := by
    rw [ht, accepted_append, or_iff_left]
    intro ⟨f, hf⟩
    exact hs f (congrArg Sigma.fst hf)
  exact ⟨fun ha => hls.trans (h.accepted (hsame.1 ha)),
    fun ha => hls.trans (h.refused (ha ∘ hsame.2))⟩

theorem registration_requested : (doEventHandlerRegistration r.pid r.uid r.mask).wlp
    (record (registry pid)) (fun _ v => Requested r ls v) (ls, []) := by
  have hnone : Requested r ls (ls, []) := ⟨fun ⟨_, hf⟩ => (nomatch hf), fun _ => rfl⟩
  refine wlp_perform_bind.2 fun fd v hv => ?_
  have hopened : Requested r ls v := hnone.other hv.1 hv.2 fun _ => SysCall.noConfusion
  cases fd with
  | none => exact hopened
  | some n =>
    have hv₀ : v.1 = ls ∧ ¬Accepted r v.2 := by
      refine ⟨hv.1, fun ⟨f, hf⟩ => ?_⟩
      rw [hv.2] at hf
      simp at hf
    refine wlp_perform_bind.2 fun ok v₁ hv₁ => ?_
    have hwritten : Requested r ls v₁ := by
      obtain ⟨hls, ht⟩ := hv₁
      have hacc : Accepted r v₁.2 ↔ ok = true := by
        rw [ht, accepted_append, or_iff_right hv₀.2]
        constructor
        · intro ⟨f, hf⟩
          exact eq_of_heq (Sigma.mk.inj hf).2
        · intro hok
          exact ⟨_, by rw [hok]⟩
      have hls : if ok then Handled r v.1 v₁.1 else v₁.1 = v.1 := hls
      rw [hv₀.1] at hls
      constructor
      · intro ha
        rw [if_pos (hacc.1 ha)] at hls
        exact hls.eq
      · intro ha
        rwa [if_neg (fun hok => ha (hacc.2 hok))] at hls
    cases ok with
    | false => exact fun _ v₂ hv₂ => hwritten.other hv₂.1 hv₂.2 fun _ => SysCall.noConfusion
    | true => exact fun _ v₂ hv₂ => hwritten.other hv₂.1 hv₂.2 fun _ => SysCall.noConfusion

/-- The request with which a connection leaves. -/
def leaving (c : Connection) : EventRequest := ⟨c.pid, c.connectionId, 0⟩

theorem removeEnd_requested : (l.removeEnd c).wlp (record (registry pid))
    (fun _ v => if l.env.connectionCount = 0 then Requested (leaving c) ls v else v.1 = ls)
    (ls, []) := by
  unfold Lib.removeEnd
  split
  · refine wlp_seq (registration_requested (r := leaving c)) fun _ v hv => ?_
    unfold Lib.destroyEventThread
    split
    · intro _ v' hv'
      exact hv.other hv'.1 hv'.2 fun _ => SysCall.noConfusion
    · exact hv
  · rfl

/-- The request to leave is made for the last connection alone. -/
theorem removeCon_requested (hc : l.heap p = some c) : (l.removeCon p).wlp (record (registry pid))
    (fun _ v => if l.env.connectionCount = 1 then Requested (leaving c) ls v else v.1 = ls)
    (ls, []) := by
  have hlast : (l.locked.removed p c).env.connectionCount = 0 ↔ l.env.connectionCount = 1 :=
    sub_eq_zero
  refine wlp_removeCon hc (wlp_mono removeEnd_requested fun _ v hv => ?_)
  simpa only [hlast] using hv

theorem freehandle_requested (hc : l.heap p = some c) :
    (l.freehandle .con (.con p)).wlp (record (registry pid)) (fun r v => r.1 = cspiOk →
      if l.env.connectionCount = 1 then Requested (leaving c) ls v else v.1 = ls) (ls, []) := by
  rw [Lib.freehandle, if_neg (by simp)]
  simp only [Lib.isHcon, wlp_bind, wlp_deref, wlp_pure]
  intro c' hc'
  obtain rfl : c = c' := Option.some.inj (hc.symm.trans hc')
  split
  · exact fun h => absurd h (by decide : cspiESequence ≠ cspiOk)
  · exact wlp_seq (removeCon_requested hc) fun _ v hv _ => hv

/-! ## Lives -/

/-- The move freed a connection, which was `c`. -/
def Frees (m : RegistryMove) (c : Connection) : Prop :=
  ∃ p, m.op = .call (.freehandle .con (.con p)) ∧ m.before.1.heap p = some c ∧
    m.result = some ⟨.freehandle .con (.con p), cspiOk⟩

/-- The daemon holds no listener for a connection that the move freed. -/
def Unregistered (pid : Word) (m : RegistryMove) : Prop :=
  ∀ c, Frees m c → (pid, c.connectionId) ∉ keys m.after.2

/-- A connection that the move frees while it has a listener is the last one of the library, was
registered in this process, and its request to leave reached the daemon. -/
def LeavesLast (pid : Word) (m : RegistryMove) : Prop :=
  ∀ c, Frees m c → (pid, c.connectionId) ∈ keys m.before.2 →
    m.before.1.env.connectionCount = 1 ∧ c.pid = pid ∧ Accepted (leaving c) m.events

theorem move_unregistered_iff (hm : m.ServedBy (libStep tf) (registry pid))
    (h : Single pid m.before.2) : Unregistered pid m ↔ LeavesLast pid m := by
  obtain ⟨op, ⟨l, ls⟩, t, res, ⟨l', ls'⟩⟩ := m
  refine forall₂_congr fun c hf => ?_
  obtain ⟨p, hop, hc, hres⟩ := hf
  obtain rfl : op = _ := hop
  obtain rfl : res = _ := hres
  have hspec :
      if l.env.connectionCount = 1 then Requested (leaving c) ls (ls', t) else ls' = ls := by
    refine hm.of_wlp_record (Q := fun r v => r.1 = some ⟨.freehandle .con (.con p), cspiOk⟩ →
      if l.env.connectionCount = 1 then Requested (leaving c) ls v else v.1 = ls) ?_ rfl
    exact wlp_seq (freehandle_requested hc) fun r v hv he =>
      hv (eq_of_heq (Sigma.mk.inj (Option.some.inj he)).2)
  change (pid, c.connectionId) ∉ keys ls' ↔ ((pid, c.connectionId) ∈ keys ls →
    l.env.connectionCount = 1 ∧ c.pid = pid ∧ Accepted (leaving c) t)
  constructor
  · intro hgone hheld
    by_contra hcon
    have hkept : (pid, c.connectionId) ∈ keys ls' := by
      split at hspec
      · next hcount =>
        by_cases hacc : Accepted (leaving c) t
        · have hpid : c.pid ≠ pid := fun hp => hcon ⟨hcount, hp, hacc⟩
          have hls' : ls' = takeOff c.pid c.connectionId ls := hspec.accepted hacc
          rw [hls', keys_takeOff]
          exact (List.mem_erase_of_ne fun he => hpid (Prod.mk.inj he).1.symm).2 hheld
        · rwa [show ls' = ls from hspec.refused hacc]
      · rwa [hspec]
    exact hgone hkept
  · intro hlast hkept
    by_cases hheld : (pid, c.connectionId) ∈ keys ls
    · obtain ⟨hcount, rfl, hacc⟩ := hlast hheld
      rw [if_pos hcount] at hspec
      have hls' : ls' = takeOff c.pid c.connectionId ls := hspec.accepted hacc
      have hmem : (c.pid, c.connectionId) ∈ keysOf c.pid ls' := mem_keysOf.2 ⟨hkept, rfl⟩
      rw [hls', keysOf, keys_takeOff, ← List.erase_filter] at hmem
      exact List.Nodup.not_mem_erase h hmem
    · split at hspec
      · by_cases hacc : Accepted (leaving c) t
        · have hls' : ls' = takeOff c.pid c.connectionId ls := hspec.accepted hacc
          rw [hls', keys_takeOff] at hkept
          exact hheld (List.mem_of_mem_erase hkept)
        · rw [show ls' = ls from hspec.refused hacc] at hkept
          exact hheld hkept
      · rw [hspec] at hkept
        exact hheld hkept

/-- **The daemon forgets a connection that is freed iff it is the last one.** In every life of the
library of a process and the daemon, no connection that was freed has a listener any more iff every
connection that is freed while it has one is the last of the library and gets its request to leave
through. -/
theorem registration_ends_iff {ms : List RegistryMove} {v : Lib × List Listener}
    (hl : Lives tf pid (l, ls) ms v) (h : Single pid ls) :
    (∀ m ∈ ms, Unregistered pid m) ↔ ∀ m ∈ ms, LeavesLast pid m := by
  have hiff : ∀ m ∈ ms, Unregistered pid m ↔ LeavesLast pid m :=
    (hl.rule (I := fun v => Single pid v.2) (G := fun _ => True)
      (fun m hm hb _ => ⟨move_unregistered_iff hm hb, move_single hm hb⟩)
      (fun _ _ _ hb ha => aside_single hb ha) h fun _ _ => trivial).1
  exact forall₂_congr hiff

/-! ### One of two connections is freed -/

/-- A system that grants every call, with the daemon. -/
def attentive (pid : Word) : Handler SysCall SysAns (List Listener)
  | .writeRequest _ r, ls => some (true, registered r ls)
  | .getpid, ls => some (pid, ls)
  | .malloc used, ls => some (some (if used 1 then 2 else 1), ls)
  | c, ls => (granting c 1).map fun x => (x.1, ls)

theorem attentive_serves (c : SysCall) (ls : List Listener) (x : SysAns c) (ls' : List Listener)
    (h : attentive pid c ls = some (x, ls')) : registry pid c x ls ls' := by
  cases c with
  | writeRequest f r =>
    obtain ⟨rfl, rfl⟩ := Prod.mk.inj (Option.some.inj h)
    exact handled_registered
  | getpid =>
    obtain ⟨rfl, rfl⟩ := Prod.mk.inj (Option.some.inj h)
    exact ⟨rfl, rfl⟩
  | malloc used => exact (Prod.mk.inj (Option.some.inj h)).2.symm
  | _ =>
    simp only [attentive] at h
    obtain ⟨y, -, hy⟩ := Option.map_eq_some_iff.1 h
    exact (Prod.mk.inj hy).2.symm

/-- The first of two connections is freed, and its listener stays. -/
theorem listener_left : ¬∀ (tf : Transform) (pid : Word) (ls : List Listener)
    (ms : List RegistryMove) (v : Lib × List Listener), (∀ q ∈ ls, q.pid ≠ pid) →
    Lives tf pid (Lib.loaded, ls) ms v → ∀ m ∈ ms, Unregistered pid m := by
  intro h
  have hstart : Lives (fun _ _ _ _ => none) 7 (Lib.loaded, []) [] (Lib.loaded, []) := .nil _
  have henv := hstart.exec attentive_serves (.call (.allochandle .env .null)) rfl
  have hcons := (henv.exec attentive_serves (.call (.allochandle .con .env)) rfl).exec
    attentive_serves (.call (.allochandle .con .env)) rfl
  have hhear :=
      (hcons.exec attentive_serves (.listen 1 4) rfl).exec attentive_serves (.listen 2 4) rfl
  have hfreed := hhear.exec attentive_serves (.call (.freehandle .con (.con 1))) rfl
  have hgone := h _ _ _ _ _ (by simp) hfreed _ (List.mem_append_right _ List.mem_cons_self) _
    ⟨1, rfl, rfl, rfl⟩
  exact hgone (by decide)

/-- The daemon forgets the only connection of a process when it is freed. -/
theorem registration_ends_single : ∃ tf ms v, Lives tf 7 (Lib.loaded, []) ms v ∧
    ms.map Move.op = [.call (.allochandle .env .null), .call (.allochandle .con .env), .listen 1 4,
      .call (.freehandle .con (.con 1))] ∧
    ((∀ m ∈ ms, Unregistered 7 m) ↔ ∀ m ∈ ms, LeavesLast 7 m) := by
  have hstart : Lives (fun _ _ _ _ => none) 7 (Lib.loaded, []) [] (Lib.loaded, []) := .nil _
  have henv := hstart.exec attentive_serves (.call (.allochandle .env .null)) rfl
  have hcon := henv.exec attentive_serves (.call (.allochandle .con .env)) rfl
  have hhear := hcon.exec attentive_serves (.listen 1 4) rfl
  have hfreed := hhear.exec attentive_serves (.call (.freehandle .con (.con 1))) rfl
  exact ⟨_, _, _, hfreed, rfl, registration_ends_iff hfreed List.nodup_nil⟩

end LiberaDaq.Eventd
