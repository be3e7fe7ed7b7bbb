import LiberaDaq.Cspi.Ownership
import LiberaDaq.Driver.Kinds
import LiberaDaq.Driver.Lifecycle

/-!
# Releasing what was taken

A driver on top of the library, over whole histories: what `initIO` takes and `deinitIO` gives back.
`deinitIO` frees the environment before the connection, and the library refuses to end the last use
of an environment that has connections; it then returns with the environment's mutex locked. So
`deinitIO` releases everything only if another user of the environment is left, or no connection is
(`release_contract`).
-/

namespace LiberaDaq

open Cspi Interaction Prog

variable {tf : Transform} {d d' : Driver} {l l' : Lib} {ps : List ℕ} {u : Word}

/-! ## The driver with its library -/

/-- The calls below the library, and those of the host. -/
abbrev LinkedCall := SysCall ⊕ HostCall

abbrev LinkedAns : LinkedCall → Type := Answers SysAns HostAns

abbrev LinkedEvent := Event LinkedCall LinkedAns

/-- The calls of the driver, carried out by the library and by the host. -/
def linkedImpl (tf : Transform) : Impl DrvCall DrvAns LinkedCall LinkedAns Lib :=
  Prog.beside (cspiImpl tf)

/-- The methods of a driver on top of the library. -/
def linkedStep (tf : Transform) :
    DriverOp → Driver × Lib → Prog LinkedCall LinkedAns (DriverResult × (Driver × Lib)) :=
  onTop (linkedImpl tf) Driver.step

/-- A call of a method, with the states of the driver and of the library. -/
abbrev LinkedMove := Move DriverOp DriverResult (Driver × Lib) LinkedEvent

/-- The answers of calls that succeed. -/
def goesWell : (c : LinkedCall) → LinkedAns c → Prop
  | .inl c, x => granted c x
  | .inr _, _ => True

/-- `malloc` gives out no address that is in use. -/
def freshAddress : (c : LinkedCall) → LinkedAns c → Prop
  | .inl c, x => mallocFresh c x
  | .inr _, _ => True

/-- The addresses that the move gets are fresh. -/
def LinkedMove.Fresh (m : LinkedMove) : Prop := ∀ e ∈ m.events, freshAddress e.1 e.2

variable {m : LinkedMove} {t : List LinkedEvent} {tr : List DrvEvent}

/-- A call of the library that was answered. -/
theorem answered_cspi {c : CspiCall} {x : CspiAns c} :
    Answered (linkedImpl tf) l (cspiEvent c x :: tr) t l' ↔ ∃ t₁ t₂ l₁,
      t = t₁.map leftEvent ++ t₂ ∧ (cspiImpl tf c l).Runs t₁ (x, l₁) ∧
      Answered (linkedImpl tf) l₁ tr t₂ l' := by
  rw [answered_cons]
  refine ⟨fun h => ?_, fun h => ?_⟩
  · obtain ⟨_, t₂, l₁, rfl, hrun, h⟩ := h
    obtain ⟨t₁, rfl, hlib⟩ := runs_beside_left.1 hrun
    exact ⟨t₁, t₂, l₁, rfl, hlib, h⟩
  · obtain ⟨t₁, t₂, l₁, rfl, hrun, h⟩ := h
    exact ⟨_, t₂, l₁, rfl, runs_beside_left.2 ⟨t₁, rfl, hrun⟩, h⟩

/-- A call that manages no handles leaves the books of the library alone. -/
theorem linkedImpl_sameBooks {c : DrvCall} (hc : managesHandles c = false) :
    (linkedImpl tf c l).Ensures fun r => l.SameBooks r.2 := by
  refine ensures_of_runs fun t r hr => ?_
  cases c with
  | inl c =>
    obtain ⟨tr, -, hr⟩ := runs_beside_left.1 hr
    refine hr.of_ensures (cspiImpl_sameBooks tf c ?_ l)
    cases c <;> first | rfl | cases hc
  | inr c =>
    obtain ⟨-, hl⟩ := runs_beside_right.1 hr
    rw [hl]
    exact .refl l

/-- A move other than `initIO` and `deinitIO` keeps the handles and the books. -/
theorem linked_quiet (hm : m.Valid (linkedStep tf)) (hi : m.op ≠ DriverOp.initIO)
    (hd : m.op ≠ DriverOp.deinitIO) :
    m.before.1.SameHandles m.after.1 ∧ m.before.2.SameBooks m.after.2 := by
  obtain ⟨tr, hv, ha⟩ := onTop_valid.1 hm
  obtain ⟨hsame, huse⟩ := move_uses hv hi hd
  refine ⟨hsame, ha.rule (I := fun l' => m.before.2.SameBooks l')
    (G := fun c => managesHandles c = false) (fun c l hc hl => ?_) (fun e he => (huse e he).1)
    (.refl _)⟩
  exact confined_mono (linkedImpl_sameBooks hc) fun r hr => hl.trans hr

/-! ## The operation -/

theorem assignTime_operation (s : List Char) (cfg : LiberaConfig) :
    (assignTime s cfg).Ensures fun x => x.2.operation = cfg.operation := by
  have hmt : ∀ s, (assignMt s cfg).operation = cfg.operation := fun s => by
    unfold assignMt
    split <;> rfl
  unfold assignTime assignSt
  split
  · rfl
  · split
    · split
      · exact hmt _
      · simp only [Prog.perform_bind, Prog.confined_call, true_and]
        intro x
        cases x <;> simp [hmt]
    · exact hmt _

theorem acquireConfig_operation (w : Word) (cfg : LiberaConfig) :
    (acquireConfig w cfg).operation = .acquire ∨
      (acquireConfig w cfg).operation = cfg.operation := by
  cases hk : acquireKind w with
  | none =>
    rw [acquireConfig_of_none hk]
    exact .inr rfl
  | some k => exact .inl (acquireConfig_hasKind cfg hk).1

theorem finish_operation (d : Driver) (out : IopOut) :
    (d.finish out).Ensures fun x => x.2.2.cfg.operation = d.cfg.operation := by
  have htail : d.iopTail.Ensures fun x => x.2.cfg.operation = d.cfg.operation := by
    unfold Driver.iopTail
    split
    · simp [Driver.setParams]
    · rfl
  exact confined_bind.2 (confined_mono htail fun _ hx => hx)

theorem settime_operation (d : Driver) (ep : EnvParams) (time : List Char) :
    (d.settime ep time).Ensures fun x => x.2.cfg.operation = .settime := by
  refine confined_bind.2 (confined_mono (assignTime_operation time _) ?_)
  rintro ⟨o, cfg⟩ hcfg
  dsimp only
  split
  · exact hcfg
  · exact ensures_bind fun _ => hcfg

/-- `iop` does not make the operation `deinit`. -/
theorem iop_operation (d : Driver) (q : IopRequest) :
    (d.iop q).Ensures fun x => x.2.2.cfg.operation = .deinit → d.cfg.operation = .deinit := by
  have hfin : ∀ (d' : Driver) (out : IopOut),
      (d'.cfg.operation = .deinit → d.cfg.operation = .deinit) → (d'.finish out).Ensures fun x =>
        x.2.2.cfg.operation = .deinit → d.cfg.operation = .deinit := fun d' out h =>
    confined_mono (finish_operation d' out) fun x hx hdeinit => h (hx ▸ hdeinit)
  have hset : ∀ op, op ≠ .deinit → (d.setOperation op).cfg.operation = .deinit →
      d.cfg.operation = .deinit := fun op hne h => absurd h hne
  refine confined_bind.2 ⟨trivial, fun ep => ?_⟩
  cases q with
  | acquire w =>
    have hop : (d.acquired w).cfg.operation = .deinit → d.cfg.operation = .deinit := fun h => by
      rcases acquireConfig_operation w d.cfg with hacq | hsame
      · exact absurd (hacq.symm.trans h) (by decide)
      · exact hsame.symm.trans h
    have hw := hfin (d.acquired w) .none hop
    refine confined_bind.2 ?_
    simp only [Driver.acquire, perform_bind, confined_ite, confined_pure, confined_call, true_and]
    split
    · exact hw
    · exact fun _ => hw
  | setenv selector value =>
    refine confined_bind.2 ⟨trivial, fun env => ⟨trivial, fun x => ?_⟩⟩
    refine confined_ite.2 ?_
    split
    · exact hset .setenv (by decide)
    · exact hfin _ _ (hset .setenv (by decide))
  | getenv =>
    refine confined_bind.2 ⟨trivial, fun env => ⟨trivial, fun x => ?_⟩⟩
    refine confined_ite.2 ?_
    split
    · exact hset .listenv (by decide)
    · exact hfin _ _ (hset .listenv (by decide))
  | settime time =>
    refine confined_bind.2 (confined_mono (settime_operation d ep time) ?_)
    rintro ⟨o, d'⟩ hop hdeinit
    exact absurd (hop.symm.trans hdeinit) (by decide)
  | setOffset n => exact hfin (d.setOffset n) .none id
  | setSamples n => exact hfin (d.setSamples n) .none id
  | stop => exact ⟨trivial, fun _ => hfin _ _ (hset _ (by decide))⟩
  | getTs =>
    refine ⟨trivial, fun x => confined_ite.2 ?_⟩
    split <;> exact id
  | other => exact hfin d .none id

/-! ## What a driver has taken -/

/-- What stands behind the handles of a driver, where the environment has `u` other users and `ps`
are the connections of others. -/
inductive Taken (u : Word) (ps : List ℕ) : Handle → Handle → Lib → Prop
  | nothing {l : Lib} : l.env.usageCount = u → l.Listed ps → Taken u ps .null .null l
  | env {l : Lib} : l.env.usageCount = u + 1 → l.Listed ps → Taken u ps .env .null l
  | both {p : ℕ} {l : Lib} : l.env.usageCount = u + 1 → l.Listed (p :: ps) →
      Taken u ps .env (.con p) l

theorem Taken.same {h h' : Handle} (hl : Taken u ps h h' l) (hs : l.SameBooks l') :
    Taken u ps h h' l' := by
  cases hl with
  | nothing hu hp => exact .nothing (hs.usageCount.trans hu) (hs.sameList.listed hp)
  | env hu hp => exact .env (hs.usageCount.trans hu) (hs.sameList.listed hp)
  | both hu hp => exact .both (hs.usageCount.trans hu) (hs.sameList.listed hp)

/-- Between two calls of its methods the driver knows what it has taken: nothing while its operation
is `deinit`. -/
structure InHand (u : Word) (ps : List ℕ) (s : Driver × Lib) : Prop where
  mutex : s.2.env.mutex = false
  closed : s.1.cfg.operation = .deinit → s.1.envHandle = .null ∧ s.1.conHandle = .null
  taken : Taken u ps s.1.envHandle s.1.conHandle s.2

/-- The counts while the operation is `deinit`. -/
theorem InHand.counts {s : Driver × Lib} (h : InHand u ps s) (hop : s.1.cfg.operation = .deinit) :
    s.2.env.usageCount = u ∧ s.2.Listed ps := by
  obtain ⟨henv, hcon⟩ := h.closed hop
  have htaken := h.taken
  rw [henv, hcon] at htaken
  cases htaken with
  | nothing hu hp => exact ⟨hu, hp⟩

/-- A move other than `initIO` and `deinitIO` takes nothing. -/
theorem quiet_inHand (hm : m.Valid (linkedStep tf)) (hi : m.op ≠ DriverOp.initIO)
    (hd : m.op ≠ DriverOp.deinitIO) (h : InHand u ps m.before) : InHand u ps m.after := by
  obtain ⟨hsame, hbooks⟩ := linked_quiet hm hi hd
  have hop : m.after.1.cfg.operation = .deinit → m.before.1.cfg.operation = .deinit := by
    obtain ⟨tr, hv, -⟩ := onTop_valid.1 hm
    cases hq : m.op with
    | initIO => exact absurd hq hi
    | deinitIO => exact absurd hq hd
    | iop q =>
      obtain ⟨o, out, -, hrun⟩ := move_iop hv hq
      exact hrun.of_ensures (iop_operation _ q)
    | read buffer addr n =>
      obtain ⟨r, -, -, hafter⟩ := move_read hv hq
      have hafter : m.after.1 = m.before.1 := hafter
      exact fun h => hafter ▸ h
  refine ⟨hbooks.mutex.trans h.mutex, fun hdeinit => ?_, ?_⟩
  · rw [hsame.1, hsame.2]
    exact h.closed (hop hdeinit)
  · rw [hsame.1, hsame.2]
    exact h.taken.same hbooks

/-! ## initIO -/

/-- The answers of a call of the library, in a move whose addresses are fresh. -/
theorem LinkedMove.Fresh.served {t₁ t₂ : List LinkedEvent} {t : List SysEvent} (h : m.Fresh)
    (he : m.events = t₁ ++ (t.map leftEvent ++ t₂)) : Served (allowing mallocFresh) t () () := by
  refine served_allowing fun e hmem => h (leftEvent e) ?_
  rw [he]
  exact List.mem_append_right _ (List.mem_append_left _ (List.mem_map_of_mem hmem))

/-- How every `initIO` begins that does its work. -/
theorem answered_init {superuser : Word} {rc : ℤ} {x : ℤ × Handle}
    (ha : Answered (linkedImpl tf) l (cspiEvent (.setlibparam superuser) rc ::
      cspiEvent (.allochandle .env .null) x :: tr) t l') (hm : l.env.mutex = false) :
    ∃ t₁ t₂ l₁ l₂, t = t₁ ++ t₂ ∧ l.SameBooks l₁ ∧ EnvTaken l₁ (x, l₂) ∧
      Answered (linkedImpl tf) l₂ tr t₂ l' := by
  obtain ⟨t₁, _, l₁, rfl, hlib, ha⟩ := answered_cspi.1 ha
  have hs : l.SameBooks l₁ := hlib.of_ensures (cspiImpl_sameBooks tf (.setlibparam superuser) rfl l)
  obtain ⟨t₂, t₃, l₂, rfl, halloc, ha⟩ := answered_cspi.1 ha
  have htaken : EnvTaken l₁ (x, l₂) :=
    halloc.of_ensures (allochandle_env_taken (h := .null) (hs.mutex.trans hm))
  exact ⟨t₁.map leftEvent ++ t₂.map leftEvent, t₃, l₁, l₂, (List.append_assoc ..).symm, hs, htaken,
    ha⟩

/-- `initIO` takes the environment and a connection, as far as it comes. -/
theorem init_inHand (hm : m.Valid (linkedStep tf)) (hi : m.op = DriverOp.initIO) (hf : m.Fresh)
    (h : InHand u ps m.before) : InHand u ps m.after := by
  obtain ⟨tr, hv, ha⟩ := onTop_valid.1 hm
  obtain ⟨rc, -, hrun⟩ := move_initIO hv hi
  obtain ⟨op, ⟨d, l⟩, t, r, ⟨d', l'⟩⟩ := m
  have hrun : Driver.InitRun d tr rc d' := initIO_runs hrun
  have ha : Answered (linkedImpl tf) l tr t l' := ha
  cases hrun with
  | skipped hop =>
    obtain ⟨-, hl⟩ := answered_nil.1 ha
    obtain rfl : l' = l := hl
    exact h
  | noEnv rc₀ x hop hx =>
    obtain ⟨hu, hp⟩ := h.counts hop
    obtain ⟨t₁, t₂, l₁, l₂, -, hs, htaken, ha⟩ := answered_init ha h.mutex
    obtain ⟨-, hl⟩ := answered_nil.1 ha
    obtain rfl : l' = l₂ := hl
    obtain ⟨hnull, husage⟩ := htaken.failed hx
    refine ⟨htaken.mutex, by rintro ⟨⟩, ?_⟩
    change Taken u ps x.2 d.conHandle l'
    rw [show d.conHandle = .null from (h.closed hop).2, show x.2 = .null from hnull]
    exact .nothing (husage.trans (hs.usageCount.trans hu))
      (htaken.list.listed (hs.sameList.listed hp))
  | unset rc₀ h₁ y hop hy =>
    obtain ⟨hu, hp⟩ := h.counts hop
    obtain ⟨t₁, t₂, l₁, l₂, -, hs, htaken, ha⟩ := answered_init ha h.mutex
    obtain ⟨t₃, t₄, l₃, rfl, hset, ha⟩ := answered_cspi.1 ha
    obtain ⟨-, hl⟩ := answered_nil.1 ha
    obtain rfl : l' = l₃ := hl
    have hs' : l₂.SameBooks l' := hset.of_ensures (cspiImpl_sameBooks tf _ rfl l₂)
    obtain ⟨henv, husage, -⟩ := htaken.ok rfl
    refine ⟨hs'.mutex.trans htaken.mutex, by rintro ⟨⟩, ?_⟩
    change Taken u ps h₁ d.conHandle l'
    rw [show d.conHandle = .null from (h.closed hop).2, show h₁ = .env from henv]
    have husage : l₂.env.usageCount = u + 1 := by rw [husage, hs.usageCount.trans hu]
    exact Taken.same (.env husage (htaken.list.listed (hs.sameList.listed hp))) hs'
  | done rc₀ h₁ ep z hop =>
    obtain ⟨hu, hp⟩ := h.counts hop
    obtain ⟨t₁, t₂, l₁, l₂, rfl, hs, htaken, ha⟩ := answered_init ha h.mutex
    obtain ⟨t₃, t₄, l₃, rfl, hset, ha⟩ := answered_cspi.1 ha
    obtain ⟨t₅, t₆, l₄, rfl, halloc, ha⟩ := answered_cspi.1 ha
    obtain ⟨-, hl⟩ := answered_nil.1 ha
    obtain rfl : l' = l₄ := hl
    have hs' : l₂.SameBooks l₃ := hset.of_ensures (cspiImpl_sameBooks tf _ rfl l₂)
    obtain ⟨henv, husage, -⟩ := htaken.ok rfl
    obtain rfl : h₁ = .env := henv
    have hlist : l₃.Listed ps :=
      hs'.sameList.listed (htaken.list.listed (hs.sameList.listed hp))
    have hserved : Served (allowing mallocFresh) t₅ () () :=
      hf.served (List.append_assoc t₁ _ _).symm
    obtain ⟨p, hz, hlist', hmutex, husage', -⟩ :=
      halloc.of_wlp hserved (allochandle_con_taken hlist (hs'.mutex.trans htaken.mutex))
    obtain rfl : z = (cspiOk, .con p) := hz
    refine ⟨hmutex, by rintro ⟨⟩, .both ?_ hlist'⟩
    calc l'.env.usageCount = l₁.env.usageCount + 1 :=
          husage'.trans (hs'.usageCount.trans husage)
      _ = u + 1 := by rw [hs.usageCount.trans hu]

/-! ## deinitIO -/

/-- The users of the environment that are left without the one that has a handle. -/
def usersLeft (h : Handle) (l : Lib) : Word :=
  if h = .null then l.env.usageCount else l.env.usageCount - 1

variable {h h' : Handle} {t₁ t₂ : List DrvEvent} {p : ℕ} {rc : ℤ}

theorem Taken.users (ht : Taken u ps h h' l) : usersLeft h l = u := by
  cases ht with
  | nothing hu => exact hu
  | env hu | both hu =>
    change l.env.usageCount - 1 = u
    rw [hu, BitVec.add_sub_cancel]

theorem Taken.eq_env (ht : Taken u ps h h' l) (hne : h ≠ .null) : h = .env := by
  cases ht with
  | nothing => exact absurd rfl hne
  | env | both => rfl

theorem Taken.con (ht : Taken u ps h h' l) :
    (h' = .null ∧ l.Listed ps) ∨ ∃ p, h' = .con p ∧ l.Listed (p :: ps) := by
  cases ht with
  | nothing _ hp | env _ hp => exact .inl ⟨rfl, hp⟩
  | both _ hp => exact .inr ⟨_, rfl, hp⟩

/-- What the release of the environment leaves, if there was one to release. -/
structure EnvLeft (h : Handle) (l l' : Lib) : Prop where
  mutex : l'.env.mutex = false
  heap : l'.heap = l.heap
  list : l.SameList l'
  usage : l'.env.usageCount = usersLeft h l
  fd : usersLeft h l ≠ 0 → l'.env.fd = l.env.fd

/-- The first half of `deinitIO`. -/
theorem free_env_cases (hr : FreeRun .env h t₁ rc h')
    (ha : Answered (linkedImpl tf) l (t₁ ++ t₂) t l') (hh : h ≠ .null → h = .env)
    (hm : l.env.mutex = false) :
    (rc ≠ cspiOk ∧ h' ≠ .null ∧ h ≠ .null ∧ l.InUse) ∨
      (rc = cspiOk ∧ h' = .null ∧ (h ≠ .null → ¬l.InUse) ∧
        ∃ t' l₁, EnvLeft h l l₁ ∧ Answered (linkedImpl tf) l₁ t₂ t' l') := by
  cases hr with
  | null hnull =>
    refine .inr ⟨rfl, hnull, fun hne => absurd hnull hne, t, l, ⟨hm, rfl, ⟨rfl, rfl, rfl⟩, ?_,
      fun _ => rfl⟩, ha⟩
    rw [usersLeft, if_pos hnull]
  | kept rc hne hrc =>
    obtain rfl := hh hne
    obtain ⟨t', _, l₁, rfl, hrun, -⟩ := answered_cspi.1 ha
    obtain ⟨huse, hfree⟩ := hrun.of_ensures (freehandle_env_given (l := l))
    refine .inl ⟨hrc, hne, hne, ?_⟩
    by_contra hno
    exact hrc (hfree hno).ok
  | freed hne =>
    obtain rfl := hh hne
    obtain ⟨t', t'', l₁, rfl, hrun, ha⟩ := answered_cspi.1 ha
    obtain ⟨huse, hfree⟩ := hrun.of_ensures (freehandle_env_given (l := l))
    have hno : ¬l.InUse := fun hu => (huse hu).1 rfl
    have hl := hfree hno
    refine .inr ⟨rfl, rfl, fun _ => hno, t'', l₁, ⟨hl.mutex, hl.heap, ⟨hl.head, ?_, hl.count⟩,
      hl.usage, fun hleft => hl.fd fun hone => hleft ?_⟩, ha⟩
    · exact funext fun p => congrArg (Option.map _) (congrFun hl.heap p)
    · change l.env.usageCount - 1 = 0
      rw [hone]
      rfl

/-- The second half of `deinitIO`, for a connection. -/
theorem free_con_cases (hr : FreeRun .con (.con p) tr rc h')
    (ha : Answered (linkedImpl tf) l tr t l') (hl : l.Listed ps) (hp : p ∈ ps)
    (hm : l.env.mutex = false) : ∃ c, l.heap p = some c ∧
      ((h' ≠ .null ∧ c.connected = true) ∨ (h' = .null ∧ c.connected = false ∧
        l'.Listed (ps.erase p) ∧ l'.env.mutex = false ∧ l'.env.usageCount = l.env.usageCount ∧
        l'.env.fd = l.env.fd)) := by
  obtain ⟨c, hc⟩ := Option.isSome_iff_exists.1 (hl.isSome.2 hp)
  refine ⟨c, hc, ?_⟩
  cases hr with
  | null hnull => cases hnull
  | kept rc hne hrc =>
    obtain ⟨t', _, l₁, rfl, hrun, -⟩ := answered_cspi.1 ha
    refine .inl ⟨hne, ?_⟩
    by_contra hno
    have hd : c.connected = false := by simpa using hno
    exact hrc (hrun.of_ensures (freehandle_con_given hl hm hc hd)).1
  | freed hne =>
    obtain ⟨t', _, l₁, rfl, hrun, ha⟩ := answered_cspi.1 ha
    obtain ⟨-, rfl⟩ := answered_nil.1 ha
    cases hd : c.connected with
    | true =>
      rw [show cspiImpl tf (.freehandle .con (.con p)) l = l.freehandle .con (.con p) from rfl,
        freehandle_con_connected hc hd] at hrun
      exact absurd (congrArg Prod.fst hrun.2) cspiESequence_ne
    | false =>
      obtain ⟨-, hrest⟩ := hrun.of_ensures (freehandle_con_given hl hm hc hd)
      exact .inr ⟨rfl, rfl, hrest⟩

/-- Nothing keeps the library from freeing the two handles of the driver, one after the other. -/
structure Freeable (s : Driver × Lib) : Prop where
  unused : s.1.envHandle ≠ .null → ¬s.2.InUse
  disconnected : ∀ p c, s.1.conHandle = .con p → s.2.heap p = some c → c.connected = false

/-- What a `deinitIO` that went through leaves. -/
structure Freed (u : Word) (ps : List ℕ) (s s' : Driver × Lib) : Prop where
  envHandle : s'.1.envHandle = .null
  conHandle : s'.1.conHandle = .null
  operation : s'.1.cfg.operation = .deinit
  superuser : s'.1.superuser = s.1.superuser
  mutex : s'.2.env.mutex = false
  usage : s'.2.env.usageCount = u
  list : s'.2.Listed ps
  freed : ∀ p, s.1.conHandle = .con p → s'.2.heap p = none
  fd : u ≠ 0 → s'.2.env.fd = s.2.env.fd

/-- `deinitIO` frees the handles of a driver when nothing keeps the library from it, and otherwise
leaves one of them. -/
theorem deinit_cases (hm : m.Valid (linkedStep tf)) (hd : m.op = DriverOp.deinitIO)
    (h : InHand u ps m.before) :
    (Freeable m.before ∧ Freed u ps m.before m.after) ∨
      (¬Freeable m.before ∧ ¬(m.after.1.envHandle = .null ∧ m.after.1.conHandle = .null)) := by
  obtain ⟨tr, hv, ha⟩ := onTop_valid.1 hm
  obtain ⟨rc, -, hrun⟩ := move_deinitIO hv hd
  obtain ⟨op, ⟨d, l⟩, t, r, ⟨d', l'⟩⟩ := m
  have hrun : Driver.DeinitRun d tr rc d' := deinitIO_runs hrun
  have ha : Answered (linkedImpl tf) l tr t l' := ha
  have htaken : Taken u ps d.envHandle d.conHandle l := h.taken
  have hmutex : l.env.mutex = false := h.mutex
  cases hrun with
  | @envKept _ _ h' hfree hrc =>
    rw [← List.append_nil tr] at ha
    rcases free_env_cases hfree ha htaken.eq_env hmutex with ⟨-, hne, hheld, huse⟩ | ⟨hok, -⟩
    · exact .inr ⟨fun hf => hf.unused hheld huse, fun hnull => hne hnull.1⟩
    · exact absurd hok hrc
  | @done t₁ t₂ _ h₁ h₂ hfree hfree' =>
    rcases free_env_cases hfree ha htaken.eq_env hmutex with ⟨hrc, -⟩ | ⟨-, hnull, hunused, t', l₁,
      hleft, ha⟩
    · exact absurd rfl hrc
    have hu : usersLeft d.envHandle l = u := htaken.users
    rcases htaken.con with ⟨hcon, hp⟩ | ⟨p, hcon, hp⟩
    · rw [hcon] at hfree'
      have hnone : ∀ p, d.conHandle ≠ .con p := fun p hq => by
        rw [hcon] at hq
        cases hq
      cases hfree' with
      | kept _ hne => exact absurd rfl hne
      | freed hne => exact absurd rfl hne
      | null =>
        obtain ⟨-, hl⟩ := answered_nil.1 ha
        obtain rfl : l' = l₁ := hl
        exact .inl ⟨⟨hunused, fun p c hq => absurd hq (hnone p)⟩,
          ⟨hnull, rfl, rfl, rfl, hleft.mutex, hleft.usage.trans hu, hleft.list.listed hp,
            fun p hq => absurd hq (hnone p), fun hne => hleft.fd (hu ▸ hne)⟩⟩
    · rw [hcon] at hfree'
      have hp₁ : l₁.Listed (p :: ps) := hleft.list.listed hp
      have hsame : ∀ q, d.conHandle = .con q → q = p := fun q hq =>
        (Handle.con.inj (hcon.symm.trans hq)).symm
      obtain ⟨c, hc, ⟨hne, hconn⟩ | ⟨hnull', hdis, hlist, hmutex', husage, hfd⟩⟩ :=
        free_con_cases hfree' ha hp₁ List.mem_cons_self hleft.mutex
      · refine .inr ⟨fun hf => ?_, fun hnull => hne hnull.2⟩
        rw [hleft.heap] at hc
        simpa [hconn] using hf.disconnected p c hcon hc
      · rw [List.erase_cons_head] at hlist
        refine .inl ⟨⟨hunused, fun q c' hq hc' => ?_⟩, ⟨hnull, hnull', rfl, rfl, hmutex',
          husage.trans (hleft.usage.trans hu), hlist, fun q hq => ?_,
          fun hne => hfd.trans (hleft.fd (hu ▸ hne))⟩⟩
        · obtain rfl := hsame q hq
          rw [hleft.heap] at hc
          rwa [← Option.some.inj (hc.symm.trans hc')]
        · obtain rfl := hsame q hq
          have hfree : ¬(l'.heap q).isSome := fun hsome =>
            (List.nodup_cons.1 hp₁.nodup).1 (hlist.isSome.1 hsome)
          simpa using hfree

/-! ## The next initIO -/

/-- The configuration device is open for writing, or there are no users and the first one will open
it so. -/
def Settable (e : Environment) (users superuser : Word) : Prop :=
  if users = 0 then superuser ≠ 0 else ∃ f, e.fd = some f ∧ f.access = .rdwr

/-- A call of the library, with calls of the system that succeed. -/
theorem wp_linked_call {α : Type} {c : CspiCall} {k : CspiAns c → DrvProg α}
    {P : CspiAns c × Lib → Prop} {Q : α × Lib → Prop} (h : (cspiImpl tf c l).wp granted P)
    (hk : ∀ r, P r → ((k r.1).interp (linkedImpl tf) r.2).wp goesWell Q) :
    ((cspi c >>= k).interp (linkedImpl tf) l).wp goesWell Q := by
  change (linkedImpl tf (.inl c) l >>= fun r =>
    (k r.1).interp (linkedImpl tf) r.2).wp goesWell Q
  exact wp_bind.2 (wp_mono (wp_liftLeft h) hk)

theorem wp_linked_init {s : Driver × Lib} {Q : DriverResult × (Driver × Lib) → Prop} :
    (linkedStep tf DriverOp.initIO s).wp goesWell Q ↔
      (interp (linkedImpl tf) (Driver.initIO s.1) s.2).wp goesWell fun r =>
        Q (.code r.1.1, (r.1.2, r.2)) := by
  rw [linkedStep, onTop, wp_bind, Driver.step, interp_bind, wp_bind]
  rfl

/-- The access to the device that a further user finds. -/
theorem settable_iff {r : (ℤ × Handle) × Lib} {f : File} (ht : EnvTaken l r) (hok : r.1.1 = cspiOk)
    (hf : r.2.env.fd = some f) :
    Settable l.env l.env.usageCount l.env.superuser ↔ f.access = .rdwr := by
  unfold Settable
  split
  · next hu =>
    obtain ⟨n, hn⟩ := ht.first hu hok
    obtain rfl := Option.some.inj (hf.symm.trans hn)
    change _ ↔ (if l.env.superuser ≠ 0 then Access.rdwr else .rdonly) = .rdwr
    split
    · next hs => exact iff_of_true hs rfl
    · next hs => exact iff_of_false hs (by decide)
  · next hu =>
    rw [← ht.fd hu, hf]
    simp

theorem not_settable (ho : ¬l.env.Openable) (superuser : Word) :
    ¬Settable l.env l.env.usageCount superuser := by
  obtain ⟨hu, hf⟩ := not_or.1 ho
  rw [Settable, if_neg hu]
  rintro ⟨f, hsome, -⟩
  exact hf (hsome ▸ rfl)

/-- An `initIO` after everything was released succeeds exactly if it finds or opens the
configuration device for writing. -/
theorem initIO_granted (tf : Transform) (hop : d.cfg.operation = .deinit) (hm : l.env.mutex = false)
    (hl : l.Listed ps) : (interp (linkedImpl tf) (Driver.initIO d) l).wp goesWell fun r =>
      r.1.1 = 0 ↔ Settable l.env l.env.usageCount d.superuser := by
  rw [Driver.initIO, if_neg (not_not.2 hop)]
  have hlib : (cspiImpl tf (.setlibparam d.superuser) l).wp granted fun r => r.2 =
      (l.locked.setEnv fun e => { e with superuser := d.superuser }).unlock := by
    change (l.setlibparam d.superuser).wp granted _
    rw [Lib.setlibparam, lock_eq hm]
    rfl
  refine wp_linked_call hlib ?_
  rintro ⟨rc₀, l₁⟩ hl₁
  dsimp only at hl₁ ⊢
  have hm₁ : l₁.env.mutex = false := by rw [hl₁]; rfl
  have hp₁ : l₁.Listed ps := by
    have hsame : l.SameList l₁ := by
      rw [hl₁]
      exact ⟨rfl, rfl, rfl⟩
    exact hsame.listed hl
  have hset : Settable l.env l.env.usageCount d.superuser ↔
      Settable l₁.env l₁.env.usageCount l₁.env.superuser := by
    rw [hl₁]
    exact Iff.rfl
  rw [hset]
  have hne : cspiESystem ≠ 0 := by decide
  by_cases ho : l₁.env.Openable
  · have halloc := allochandle_env_granted (h := .null) hm₁ ho
    refine wp_linked_call (c := .allochandle .env .null) halloc ?_
    rintro ⟨⟨rc, h⟩, l₂⟩ ⟨hrc, ht⟩
    obtain rfl : rc = cspiOk := hrc
    obtain ⟨hh, -, hfd⟩ := ht.ok rfl
    obtain rfl : h = .env := hh
    obtain ⟨f, hf⟩ : ∃ f, l₂.env.fd = some f := Option.isSome_iff_exists.1 hfd
    rw [settable_iff ht rfl hf]
    have hp : d.initial.ep.val .trigMode = trigmodeGet := EnvParams.set_val_self _ _ _
    have hmode := setenvparam_granted ht.mutex hf hp
    refine wp_linked_call (c := .setenvparam .env d.initial.ep envTrigmode) hmode ?_
    rintro ⟨⟨rc, ep⟩, l₃⟩ ⟨hrc, hs⟩
    by_cases hw : f.access = .rdwr
    · rw [if_pos hw] at hrc
      obtain rfl : rc = cspiOk := hrc
      have hcon := allochandle_con_granted (hs.sameList.listed (ht.list.listed hp₁))
        (hs.mutex.trans ht.mutex)
      refine wp_linked_call (c := .allochandle .con .env) hcon ?_
      rintro ⟨⟨rc, h⟩, l₄⟩ hrc
      obtain rfl : rc = cspiOk := hrc
      exact iff_of_true rfl hw
    · rw [if_neg hw] at hrc
      obtain rfl : rc = cspiESystem := hrc
      exact iff_of_false hne hw
  · have halloc := allochandle_env_missing (h := .null) hm₁ ho
    refine wp_linked_call (c := .allochandle .env .null) halloc ?_
    rintro ⟨⟨rc, h⟩, l₂⟩ hrc
    obtain rfl : rc = cspiESystem := hrc
    exact iff_of_false hne (not_settable ho _)

/-! ## Whole histories -/

/-- Everything is released: the handles are null and the connection is no longer on the heap, the
mutex is free, and an `initIO` succeeds that follows with calls that succeed. -/
structure Released (tf : Transform) (m : LinkedMove) : Prop where
  envHandle : m.after.1.envHandle = .null
  conHandle : m.after.1.conHandle = .null
  freed : ∀ p, m.before.1.conHandle = .con p → m.after.2.heap p = none
  mutex : m.after.2.env.mutex = false
  again : (linkedStep tf DriverOp.initIO m.after).wp goesWell fun r => r.1 = .code 0

/-- The handles can be freed, and the configuration device is open for writing as long as users of
the environment are left, or else the driver opens it so. -/
structure Releasable (s : Driver × Lib) : Prop extends Freeable s where
  settable : Settable s.2.env (usersLeft s.1.envHandle s.2) s.1.superuser

/-- An `initIO` that does its work. -/
def Opens (m : LinkedMove) : Prop :=
  m.op = DriverOp.initIO ∧ m.before.1.cfg.operation = .deinit

/-- The counts of the users and of the connections are the same. -/
def SameCounts (l l' : Lib) : Prop :=
  l'.env.usageCount = l.env.usageCount ∧ l'.env.connectionCount = l.env.connectionCount

variable {s s' : Driver × Lib} {ms : List LinkedMove}

theorem Freed.settable_iff (h : Freed u ps s s') (hu : usersLeft s.1.envHandle s.2 = u) :
    Settable s'.2.env s'.2.env.usageCount s'.1.superuser ↔
      Settable s.2.env (usersLeft s.1.envHandle s.2) s.1.superuser := by
  rw [h.usage, hu, h.superuser]
  unfold Settable
  split
  · exact Iff.rfl
  · next hne => rw [h.fd hne]

theorem again_iff (tf : Transform) (hop : s.1.cfg.operation = .deinit) (hm : s.2.env.mutex = false)
    (hl : s.2.Listed ps) :
    ((linkedStep tf DriverOp.initIO s).wp goesWell fun r => r.1 = .code 0) ↔
      Settable s.2.env s.2.env.usageCount s.1.superuser := by
  rw [wp_linked_init]
  have hinit := initIO_granted tf hop hm hl
  constructor
  · intro h
    obtain ⟨tr, r, hrun, hok, hr⟩ := exists_runs_of_wp hinit
    exact hr.1 (DriverResult.code.inj (hrun.of_wp h hok))
  · exact fun hs => wp_mono hinit fun r hr => congrArg DriverResult.code (hr.2 hs)

/-- A `deinitIO` releases everything exactly from a releasable state. -/
theorem released_iff (hm : m.Valid (linkedStep tf)) (hd : m.op = DriverOp.deinitIO)
    (h : InHand u ps m.before) : Released tf m ↔ Releasable m.before := by
  have hu : usersLeft m.before.1.envHandle m.before.2 = u := h.taken.users
  rcases deinit_cases hm hd h with ⟨hfree, hfreed⟩ | ⟨hkept, hheld⟩
  · have hagain := again_iff tf hfreed.operation hfreed.mutex hfreed.list
    rw [hfreed.settable_iff hu] at hagain
    exact ⟨fun hr => ⟨hfree, hagain.1 hr.again⟩, fun hr => ⟨hfreed.envHandle, hfreed.conHandle,
      hfreed.freed, hfreed.mutex, hagain.2 hr.settable⟩⟩
  · exact iff_of_false (fun hr => hheld ⟨hr.envHandle, hr.conHandle⟩) fun hr =>
      hkept hr.toFreeable

/-- A `deinitIO` that went through leaves nothing in hand. -/
theorem deinit_inHand (hm : m.Valid (linkedStep tf)) (hd : m.op = DriverOp.deinitIO)
    (h : InHand u ps m.before) (hf : Freeable m.before) :
    Freed u ps m.before m.after ∧ InHand u ps m.after := by
  rcases deinit_cases hm hd h with ⟨-, hfreed⟩ | ⟨hkept, -⟩
  · refine ⟨hfreed, hfreed.mutex, fun _ => ⟨hfreed.envHandle, hfreed.conHandle⟩, ?_⟩
    rw [hfreed.envHandle, hfreed.conHandle]
    exact .nothing hfreed.usage hfreed.list
  · exact absurd hf hkept

/-- Every move keeps the account of what the driver has taken, as long as `deinitIO` finds a state
it can release. -/
theorem inHand_step (hm : m.Valid (linkedStep tf)) (h : InHand u ps m.before) (hf : m.Fresh)
    (hr : m.op = DriverOp.deinitIO → Freeable m.before) : InHand u ps m.after := by
  by_cases hi : m.op = DriverOp.initIO
  · exact init_inHand hm hi hf h
  by_cases hd : m.op = DriverOp.deinitIO
  · exact (deinit_inHand hm hd h (hr hd)).2
  · exact quiet_inHand hm hi hd h

/-- **Releasing everything.** In every history of a driver that starts without handles, over a
library whose mutex is free, `deinitIO` always releases everything, with the counts back to what
every `initIO` before it found, exactly if it always finds a releasable state. -/
theorem release_contract (henv : s.1.envHandle = .null) (hcon : s.1.conHandle = .null)
    (hm : s.2.env.mutex = false) (hl : s.2.Listed ps) (h : History (linkedStep tf) s ms s')
    (hf : ∀ m ∈ ms, m.Fresh) :
    (∀ ms₁ m ms₂, ms = ms₁ ++ m :: ms₂ → m.op = DriverOp.deinitIO →
      Released tf m ∧ ∀ i ∈ ms₁, Opens i → SameCounts i.before.2 m.after.2) ↔
    ∀ m ∈ ms, m.op = DriverOp.deinitIO → Releasable m.before := by
  have hstart : InHand s.2.env.usageCount ps s := by
    refine ⟨hm, fun _ => ⟨henv, hcon⟩, ?_⟩
    rw [henv, hcon]
    exact .nothing rfl hl
  generalize s.2.env.usageCount = u at hstart
  constructor
  · intro hrel
    have hG : ∀ m ∈ ms, m.Fresh ∧ (m.op = DriverOp.deinitIO → Released tf m) := fun m hmem => by
      obtain ⟨ms₁, ms₂, rfl⟩ := List.append_of_mem hmem
      exact ⟨hf m hmem, fun hd => (hrel ms₁ m ms₂ rfl hd).1⟩
    refine (h.rule (I := InHand u ps) (P := fun m => m.op = DriverOp.deinitIO →
      Releasable m.before) (fun m hm h hg => ?_) hstart hG).1
    have hr : m.op = DriverOp.deinitIO → Releasable m.before := fun hd =>
      (released_iff hm hd h).1 (hg.2 hd)
    exact ⟨hr, inHand_step hm h hg.1 fun hd => (hr hd).toFreeable⟩
  · intro hrel
    have hG : ∀ m ∈ ms, m.Fresh ∧ (m.op = DriverOp.deinitIO → Releasable m.before) :=
      fun m hmem => ⟨hf m hmem, hrel m hmem⟩
    have hP := (h.rule (I := InHand u ps) (P := fun m =>
      (m.op = DriverOp.deinitIO → Released tf m ∧ m.after.2.env.usageCount = u ∧
        m.after.2.Listed ps) ∧
      (Opens m → m.before.2.env.usageCount = u ∧ m.before.2.Listed ps)) (fun m hm h hg => ?_)
      hstart hG).1
    · intro ms₁ m ms₂ he hd
      have hmem : ∀ i ∈ ms₁, i ∈ ms := fun i hi => he ▸ List.mem_append_left _ hi
      obtain ⟨hreleased, husage, hlist⟩ := (hP m (he ▸ by simp)).1 hd
      refine ⟨hreleased, fun i hi hopens => ?_⟩
      obtain ⟨husage', hlist'⟩ := (hP i (hmem i hi)).2 hopens
      exact ⟨husage.trans husage'.symm, hlist.count.trans hlist'.count.symm⟩
    · refine ⟨⟨fun hd => ⟨(released_iff hm hd h).2 (hg.2 hd), ?_⟩, fun hopens => h.counts hopens.2⟩,
        inHand_step hm h hg.1 fun hd => (hg.2 hd).toFreeable⟩
      obtain ⟨hfreed, -⟩ := deinit_inHand hm hd h (hg.2 hd).toFreeable
      exact ⟨hfreed.usage, hfreed.list⟩

/-! ### A driver that is the only user -/

/-- A system and a host that grant every call, with addresses that are not in use. -/
def obligingLinked : Handler LinkedCall LinkedAns ℕ
  | .inl (.malloc used), n => if used n then none else some (some n, n + 1)
  | .inl c, n => granting c n
  | .inr c, n => (calmHost c).map (·, n)

theorem obligingLinked_answers (c : LinkedCall) (n : ℕ) (x : LinkedAns c) (n' : ℕ)
    (h : obligingLinked c n = some (x, n')) : goesWell c x ∧ freshAddress c x := by
  cases c with
  | inr c => exact ⟨trivial, trivial⟩
  | inl c =>
    cases c with
    | malloc used =>
      change (if used n then none else some (some n, n + 1)) = some (x, n') at h
      split at h
      · cases h
      · next hfree =>
        obtain ⟨rfl, -⟩ := Prod.mk.inj (Option.some.inj h)
        refine ⟨rfl, fun p hp => ?_⟩
        obtain rfl := Option.some.inj hp
        simpa using hfree
    | «open» | getMagic | getCfg | setCfg | getfl =>
      obtain ⟨rfl, -⟩ := Prod.mk.inj (Option.some.inj h)
      exact ⟨rfl, trivial⟩
    | _ => exact ⟨trivial, trivial⟩

/-- A driver that opens the configuration device for writing. -/
def superDriver : Driver := { freshDriver with superuser := 1 }

theorem onlyUser_moves (tf : Transform) : ∃ m₁ m₂, execAll obligingLinked (linkedStep tf)
    [DriverOp.initIO, DriverOp.deinitIO] (superDriver, Lib.loaded) 1 = some [m₁, m₂] ∧
      m₂.after.2.env.mutex = true :=
  ⟨_, _, rfl, rfl⟩

/-- The only user of the library leaves it locked when it is done. -/
theorem only_user_keeps_lock : ¬∀ (tf : Transform) (s s' : Driver × Lib) (ps : List ℕ)
    (ms : List LinkedMove), s.1.envHandle = .null → s.1.conHandle = .null →
    s.2.env.mutex = false → s.2.Listed ps → History (linkedStep tf) s ms s' →
    (∀ m ∈ ms, m.Fresh) → (∀ m ∈ ms, ∀ e ∈ m.events, goesWell e.1 e.2) →
    ∀ ms₁ m ms₂, ms = ms₁ ++ m :: ms₂ → m.op = DriverOp.deinitIO →
      Released tf m ∧ ∀ i ∈ ms₁, Opens i → SameCounts i.before.2 m.after.2 := by
  intro h
  obtain ⟨m₁, m₂, hms, hlocked⟩ := onlyUser_moves fun _ _ _ _ => none
  obtain ⟨s', hh⟩ := History.of_execAll hms
  have hanswers := execAll_forall (P := fun e => goesWell e.1 e.2 ∧ freshAddress e.1 e.2)
    obligingLinked_answers hms
  have hop : m₂.op = DriverOp.deinitIO := (List.cons.inj (List.cons.inj (execAll_ops hms)).2).1
  have hfresh : ∀ m ∈ [m₁, m₂], LinkedMove.Fresh m := fun m hm e he => (hanswers m hm e he).2
  have hwell : ∀ m ∈ [m₁, m₂], ∀ e ∈ m.events, goesWell e.1 e.2 := fun m hm e he =>
    (hanswers m hm e he).1
  obtain ⟨hreleased, -⟩ :=
    h _ _ s' [] _ rfl rfl rfl loaded_listed hh hfresh hwell [m₁] m₂ [] rfl hop
  have hfree := hreleased.mutex
  rw [hlocked] at hfree
  cases hfree

/-- A library with another user, who opened the configuration device for writing. -/
def usedLib : Lib :=
  Lib.loaded.setEnv fun e => { e with usageCount := 1, fd := some ⟨3, .rdwr⟩ }

/-- The contract for a driver that is not the only user. -/
theorem release_contract_second_user : ∃ (tf : Transform) (ms : List LinkedMove)
    (s' : Driver × Lib), History (linkedStep tf) (superDriver, usedLib) ms s' ∧
    ms.map Move.op = [DriverOp.initIO, .iop .getTs, DriverOp.deinitIO] ∧
    ((∀ ms₁ m ms₂, ms = ms₁ ++ m :: ms₂ → m.op = DriverOp.deinitIO →
      Released tf m ∧ ∀ i ∈ ms₁, Opens i → SameCounts i.before.2 m.after.2) ↔
    ∀ m ∈ ms, m.op = DriverOp.deinitIO → Releasable m.before) := by
  let tf : Transform := fun _ _ _ _ => none
  obtain ⟨ms, hms⟩ : ∃ ms, execAll obligingLinked (linkedStep tf)
      [DriverOp.initIO, .iop .getTs, DriverOp.deinitIO] (superDriver, usedLib) 1 = some ms :=
    ⟨_, rfl⟩
  obtain ⟨s', hh⟩ := History.of_execAll hms
  have hanswers := execAll_forall (P := fun e => goesWell e.1 e.2 ∧ freshAddress e.1 e.2)
    obligingLinked_answers hms
  have hlist : usedLib.Listed [] := ⟨List.nodup_nil, rfl, rfl, rfl⟩
  exact ⟨tf, ms, s', hh, execAll_ops hms, release_contract rfl rfl rfl hlist hh
    fun m hm e he => (hanswers m hm e he).2⟩

end LiberaDaq
