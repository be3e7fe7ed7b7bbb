import LiberaDaq.Calibration.Refresh

/-!
# Reading with the cache

A read leaves the world alone (`read_world`). It begins with a cache that is ready: one that is
coherent, or one that is marked and whose refresh will be answered. Then the cache is coherent or
still marked at the end, and a read of turn-by-turn data that succeeds has transformed its atoms
with a coherent cache (`wlp_read`).
-/

namespace LiberaDaq.Calibration

open LiberaDaq.Interaction LiberaDaq.Cspi LiberaDaq.Kernel Prog

variable {g : Global} {u : CacheWorld} {l l' : Lib} {c : Connection} {f : File} {tf : Transform}
  {dest : Buffer} {count : Word} {p : ℕ} {serve : Serves SysCall SysAns CacheWorld}

/-! ## What a read does to the world -/

/-- The call changes nothing outside the process. -/
def harmless : SysCall → Prop
  | .setCfg _ _ _ => False
  | .dscMessage msg _ => msg = .getDsc ∨ msg = .getFrev
  | _ => True

/-- The answers come from the system, if not all that it could give. -/
def Within (serve : Serves SysCall SysAns CacheWorld) (g : Global) : Prop :=
  ∀ c x v v', serve c x v v' → cacheServe g c x v v'

theorem Within.harmless {c : SysCall} {x : SysAns c} {v v' : CacheWorld} (h : Within serve g)
    (hc : harmless c) (hx : serve c x v v') : v' = v := by
  have hx := h c x v v' hx
  cases c with
  | setCfg f idx val => exact hc.elim
  | getCfg f idx => exact hx.2
  | toattn w => exact hx.2
  | dscMessage msg val =>
    obtain rfl | rfl := hc
    · exact hx.2
    · exact hx
  | hang | fault => exact x.elim
  | _ => exact hx

theorem harmless_getenvparam {fd : Option File} {flags : Bitmask} {ep : EnvParams}
    (h : flags = cacheMask ∨ flags = envAverageSum) :
    Only harmless (customGetenvparam fd flags ep) := by
  refine only_customGetenvparam (fun _ => trivial) (fun _ _ => trivial) trivial trivial
    fun e he hf v => ?_
  have hmsg : ∀ e ∈ dscGetMap, cacheMask.hits e.mask = true ∨ envAverageSum.hits e.mask = true →
      e.msg = .getDsc ∨ e.msg = .getFrev := by decide
  obtain rfl | rfl := h
  · exact hmsg e he (.inl hf)
  · exact hmsg e he (.inr hf)

theorem harmless_isHcon {h : Handle} : Only harmless (l.isHcon h) := only_isHcon trivial

theorem harmless_customInitop : Only harmless l.customInitop :=
  only_customInitop trivial trivial (fun _ _ => harmless_getenvparam (.inl rfl)) fun _ _ => trivial

theorem harmless_applyOp {op : Operator} {cache : Cache} {atom : ℕ → Atom} {n : ℕ} :
    Only harmless (applyOp tf op cache dest atom n) := only_applyOp trivial fun _ => trivial

theorem harmless_readDd {op : Option Operator} :
    Only harmless (l.readDd tf p c f dest count op) := by
  refine only_seq (only_sys trivial) fun r => ?_
  cases r with
  | none => exact only_pure _
  | some r =>
    refine only_seq (only_ite (only_sys trivial) (only_sys trivial)) fun ts => ?_
    cases ts with
    | none => exact only_pure _
    | some ts =>
      cases op with
      | none => exact only_pure _
      | some op =>
        refine only_seq harmless_customInitop fun r => only_ite (only_pure _) ?_
        exact only_seq harmless_applyOp fun _ => only_pure _

theorem harmless_readAdc {op : Option Operator} :
    Only harmless (l.readAdc tf c f dest count op) := by
  have hbuffer : Only harmless (adcBuffer c dest) :=
    only_ite (only_pure _) (only_seq (only_sys trivial) fun _ => only_pure _)
  refine only_seq hbuffer fun place => ?_
  cases place with
  | none => exact only_pure _
  | some place =>
    refine only_seq (only_sys trivial) fun r => ?_
    cases r with
    | none => exact only_pure _
    | some r =>
      cases op with
      | none => exact only_pure _
      | some op =>
        refine only_seq harmless_customInitop fun r => only_ite (only_pure _) ?_
        exact only_seq harmless_applyOp fun _ => only_pure _

theorem harmless_readAvg : Only harmless (l.readAvg p c f dest) := by
  have hseek : ∀ h o s, Only harmless (l.seek h o s) := fun h o s => by
    refine only_seq harmless_isHcon fun r => ?_
    cases r with
    | none => exact only_pure _
    | some r =>
      refine only_seq (only_onFile fun f => only_ite (only_pure _) ?_) fun _ => only_pure _
      exact only_seq (only_sys trivial) fun _ => only_pure _
  refine only_seq (hseek _ _ _) fun r => only_ite (only_pure _) ?_
  refine only_seq (only_sys trivial) fun r => ?_
  cases r with
  | none => exact only_pure _
  | some r =>
    refine only_seq (only_sys trivial) fun ts => ?_
    cases ts with
    | none => exact only_pure _
    | some ts =>
      refine only_seq (only_sys trivial) fun params => only_seq ?_ fun r => ?_
      · refine only_seq (only_pure _) fun _ => only_ite ?_ (only_pure _)
        exact only_seq (only_lock trivial) fun l =>
          only_seq (harmless_getenvparam (.inr rfl)) fun _ => only_pure _
      · exact only_ite (only_pure _) (only_seq (only_sys trivial) fun _ => only_pure _)

/-- **A read is harmless.** -/
theorem harmless_read {h : Handle} : Only harmless (l.read tf h dest count) := by
  cases h with
  | null | env => exact ⟨trivial, fun e => e.elim⟩
  | con p =>
    refine only_seq (only_deref trivial) fun c => ?_
    refine only_seq (only_customGetdefaultop harmless_customInitop) fun r => ?_
    refine only_seq harmless_isHcon fun q => ?_
    cases q with
    | none => exact only_pure _
    | some q =>
      refine only_ite (only_pure _) (only_onFile fun f => ?_)
      obtain ⟨p, c⟩ := q
      dsimp only
      cases c.mode with
      | sa => exact only_pure _
      | adc | adcCw | adcSp | adcSpRot => exact harmless_readAdc
      | average => exact harmless_readAvg
      | dd | pm | unknown => exact harmless_readDd

/-- **A read leaves the world alone.** -/
theorem read_world (hs : Within serve g) {h : Handle} :
    (l.read tf h dest count).wlp serve (fun _ u' => u' = u) u :=
  wlp_mono (wlp_frame harmless_read fun _ _ _ _ hc hx => hs.harmless hc hx) fun _ _ h => h.2

/-! ## What a read does with the cache -/

/-- The cache is coherent and not marked, or it is marked and the refresh will be answered. -/
inductive Ready (serve : Serves SysCall SysAns CacheWorld) (g : Global) (u : CacheWorld) (l : Lib) :
    Prop
  | clean (hd : l.dirty = false) (hc : Coherent l.cache u)
  | marked (hd : l.dirty = true) (hfd : l.env.fd.isSome) (hs : serve = cacheAnswers g)

/-- The cache is marked or coherent. -/
def Sound (l : Lib) (u : CacheWorld) : Prop := l.dirty = true ∨ Coherent l.cache u

theorem Ready.sound (h : Ready serve g u l) : Sound l u := by
  cases h with
  | clean _ hc => exact .inr hc
  | marked hd => exact .inl hd

/-- It does not matter what else the library holds. -/
theorem Ready.of_eq (h : Ready serve g u l) (hd : l'.dirty = l.dirty) (hc : l'.cache = l.cache)
    (hfd : l'.env.fd = l.env.fd) : Ready serve g u l' := by
  cases h with
  | clean hd' hc' => exact .clean (hd.trans hd') (hc ▸ hc')
  | marked hd' hfd' hs => exact .marked (hd.trans hd') (hfd ▸ hfd') hs

/-- After `custom_initop` a ready cache is coherent. -/
theorem Ready.wlp_initop (h : Ready serve g u l) : l.customInitop.wlp serve (fun r u' => u' = u ∧
    r.1 = cspiOk ∧ r.2.dirty = false ∧ r.2.heap = l.heap ∧ Coherent r.2.cache u ∧
    (l.dirty = false → r.2.cache = l.cache)) u := by
  cases h with
  | clean hd hc =>
    rw [customInitop_clean hd]
    exact ⟨rfl, rfl, hd, rfl, hc, fun _ => rfl⟩
  | marked hd hfd hs =>
    subst hs
    refine wlp_mono (wlp_customInitop hfd hd) fun r u' ⟨hu, hr, hd', hheap, hc⟩ => ?_
    exact ⟨hu, hr, hd', hheap, hc, fun h => absurd h (by simp [hd])⟩

/-- An operator made the atoms that were read of the cache. -/
def MadeWith (tf : Transform) (op : Operator) (cache : Cache) (data : List Atom) : Prop :=
  ∃ atom n members, tf op cache atom n = some members ∧ data = op.atoms members n

theorem wlp_applyOp (hs : Within serve g) {op : Operator} {cache : Cache} {atom : ℕ → Atom}
    {n : ℕ} :
    (applyOp tf op cache dest atom n).wlp serve
      (fun atoms u' => u' = u ∧ MadeWith tf op cache atoms) u := by
  unfold applyOp
  split
  · exact fun e => e.elim
  · next members hm =>
    refine wlp_perform_bind.2 fun x u' hx => ?_
    exact ⟨hs.harmless (c := .store dest _) trivial hx, atom, n, members, hm, rfl⟩

/-- What `read_dd` does with its operator. -/
theorem wlp_readDd (hs : Within serve g) (h : Ready serve g u l) {op : Operator} :
    (l.readDd tf p c f dest count (some op)).wlp serve (fun r _ => Sound r.2 u ∧
      (r.1.rc = cspiOk → Coherent r.2.cache u ∧ MadeWith tf op r.2.cache r.1.data ∧
        (l.dirty = false → r.2.cache = l.cache))) u := by
  refine wlp_perform_bind.2 fun r u₁ hr => ?_
  obtain rfl : u₁ = u := hs.harmless (c := .read f _ _ _) trivial hr
  cases r with
  | none => exact ⟨h.sound, fun h => absurd h (by simp)⟩
  | some r =>
    have htstamp : (ddTstamp c f).wlp serve (fun _ u' => u' = u₁) u₁ := by
      unfold ddTstamp
      split
      · exact fun x u' hx => hs.harmless (c := .getDdTstamp f) trivial hx
      · exact fun x u' hx => hs.harmless (c := .getPmTstamp f) trivial hx
    refine wlp_seq htstamp ?_
    rintro ts u' rfl
    cases ts with
    | none => exact ⟨h.sound, fun h => absurd h (by simp)⟩
    | some ts =>
      have h' : Ready serve g u' (l.setCon p { c with timestamp := ts }) := h.of_eq rfl rfl rfl
      refine wlp_seq h'.wlp_initop ?_
      rintro ⟨rc, l'⟩ u₂ ⟨rfl, rfl, hd, -, hc, hsame⟩
      dsimp only
      rw [if_neg (by simp)]
      refine wlp_seq (wlp_applyOp hs) ?_
      rintro atoms u₃ ⟨rfl, hmade⟩
      exact ⟨.inr hc, fun _ => ⟨hc, hmade, hsame⟩⟩

/-- Without an operator `read_dd` does not look at the cache. -/
theorem wlp_readDd_none (h : Ready serve g u l) :
    (l.readDd tf p c f dest count none).wlp serve (fun r _ => Sound r.2 u) u := by
  refine wlp_mono (wlp_of_ensures (R := fun r => r.2.dirty = l.dirty ∧ r.2.cache = l.cache) ?_)
    fun r _ hr => h.sound.imp (hr.1.trans ·) (hr.2 ▸ ·)
  refine ensures_bind fun r => ?_
  cases r with
  | none => exact ⟨rfl, rfl⟩
  | some r =>
    refine ensures_bind fun ts => ?_
    cases ts <;> exact ⟨rfl, rfl⟩

/-- The atoms of the ADC are transformed with the cache too. -/
theorem wlp_readAdc (hs : Within serve g) (h : Ready serve g u l) {op : Option Operator} :
    (l.readAdc tf c f dest count op).wlp serve (fun r _ => Sound r.2 u) u := by
  have hbuffer : (adcBuffer c dest).wlp serve (fun _ u' => u' = u) u := by
    unfold adcBuffer
    split
    · exact rfl
    · exact fun x u' hx => hs.harmless (c := .alloc) trivial hx
  refine wlp_seq hbuffer ?_
  rintro place u₁ rfl
  cases place with
  | none => exact h.sound
  | some place =>
    refine wlp_perform_bind.2 fun r u₂ hr => ?_
    obtain rfl : u₂ = u₁ := hs.harmless (c := .read f place _ _) trivial hr
    cases r with
    | none => exact h.sound
    | some r =>
      cases op with
      | none => exact h.sound
      | some op =>
        refine wlp_seq h.wlp_initop ?_
        rintro ⟨rc, l'⟩ u₃ ⟨rfl, rfl, -, -, hc, -⟩
        dsimp only
        rw [if_neg (by simp)]
        refine wlp_seq (wlp_applyOp hs) ?_
        exact fun _ _ _ => .inr hc

/-- The parameters of the environment are got without the cache. -/
theorem getenvparam_cache {h : Handle} {ep : EnvParams} {flags : Bitmask} :
    (l.getenvparam h ep flags).Ensures fun r => r.2.dirty = l.dirty ∧ r.2.cache = l.cache := by
  refine confined_bind.2 (ensures_isHenv fun valid => ?_)
  cases valid with
  | false => exact ⟨rfl, rfl⟩
  | true =>
    simp only [if_true, confined_bind, ensures_lock, confined_pure]
    exact fun _ => confined_mono (ensures_true _) fun _ _ => ⟨rfl, rfl⟩

/-- The average is read without the cache. -/
theorem readAvg_cache : (l.readAvg p c f dest).Ensures fun r =>
    r.2.dirty = l.dirty ∧ r.2.cache = l.cache := by
  refine confined_bind.2 (confined_mono seek_ensures ?_)
  rintro ⟨rc, l'⟩ hl
  obtain rfl : l' = l := hl
  dsimp only
  split
  · exact ⟨rfl, rfl⟩
  · refine ensures_bind fun r => ?_
    cases r with
    | none => exact ⟨rfl, rfl⟩
    | some r =>
      refine ensures_bind fun ts => ?_
      cases ts with
      | none => exact ⟨rfl, rfl⟩
      | some ts =>
        refine ensures_bind fun params => ?_
        refine confined_bind.2 (confined_mono getenvparam_cache ?_)
        rintro ⟨⟨rc, params⟩, l''⟩ h
        dsimp only
        split
        · exact h
        · exact ensures_bind fun _ => h

/-- The operator that the parameters of the cache call for. -/
def called (mode : Mode) (cache : Cache) : Operator :=
  if mode = .dd ∧ cache.srDsc = 2 ∧ cache.sr .cspiEnable ≠ 0 then .transformDdRemoveSpikes
  else .transformDd

/-- A read of turn-by-turn data: the connection is in a mode whose atoms the cache calibrates. -/
def turnByTurn (mode : Mode) : Prop := mode = .dd ∨ mode = .pm

/-- What `custom_getdefaultop` gives. In the mode DD it refreshes the cache. -/
theorem wlp_customGetdefaultop (h : Ready serve g u l) {mode : Mode} :
    (l.customGetdefaultop mode).wlp serve (fun r u' => u' = u ∧ r.2.heap = l.heap ∧
      Ready serve g u r.2 ∧ (mode = .dd → r.2.dirty = false ∧ r.1 = some (called mode r.2.cache)) ∧
      (mode = .pm → r.1 = some .transformDd)) u := by
  cases mode with
  | dd =>
    refine wlp_seq h.wlp_initop ?_
    rintro ⟨rc, l'⟩ u' ⟨rfl, -, hd, hheap, hc, -⟩
    exact ⟨rfl, hheap, .clean hd hc, fun _ => ⟨hd, by simp [called]⟩, by simp⟩
  | pm => exact ⟨rfl, rfl, h, by simp, fun _ => rfl⟩
  | _ => exact ⟨rfl, rfl, h, by simp, by simp⟩

/-- What `cspi_read_ex` does on a connection with the operator of its mode. -/
theorem wlp_readEx (hs : Within serve g) (h : Ready serve g u l) {op : Option Operator} :
    (l.readEx tf (.con p) dest count op).wlp serve (fun r _ => Sound r.2 u ∧
      ∀ c o, l.heap p = some c → turnByTurn c.mode → op = some o → r.1.rc = cspiOk →
        Coherent r.2.cache u ∧ MadeWith tf o r.2.cache r.1.data ∧
          (l.dirty = false → r.2.cache = l.cache)) u := by
  simp only [Lib.readEx, Lib.isHcon, wlp_bind, wlp_deref, wlp_pure]
  intro c hc
  have hnot : ∀ {r : ReadResult}, r.rc ≠ cspiOk → Sound l u ∧
      ∀ c o, l.heap p = some c → turnByTurn c.mode → op = some o → r.rc = cspiOk →
        Coherent l.cache u ∧ MadeWith tf o l.cache r.data ∧ (l.dirty = false → l.cache = l.cache) :=
    fun hr => ⟨h.sound, fun _ _ _ _ _ hok => absurd hok hr⟩
  have hother : ∀ {q : LibProg (ReadResult × Lib)}, ¬turnByTurn c.mode →
      q.wlp serve (fun r _ => Sound r.2 u) u → q.wlp serve (fun r _ => Sound r.2 u ∧
        ∀ c o, l.heap p = some c → turnByTurn c.mode → op = some o → r.1.rc = cspiOk →
          Coherent r.2.cache u ∧ MadeWith tf o r.2.cache r.1.data ∧
            (l.dirty = false → r.2.cache = l.cache)) u := by
    intro q hm hq
    refine wlp_mono hq fun r _ hr => ⟨hr, fun c' o hc' hm' => ?_⟩
    obtain rfl : c = c' := Option.some.inj (hc.symm.trans hc')
    exact absurd hm' hm
  split
  · exact hnot (r := ⟨cspiEInvalidParam, 0, []⟩) (by simp)
  · cases c.fd with
    | none => exact hnot (r := ⟨cspiESequence, 0, []⟩) (by simp)
    | some f =>
      dsimp only [onFile]
      cases hm : c.mode with
      | sa => exact hnot (r := ⟨cspiEIllegalCall, 0, []⟩) (by simp)
      | adc | adcCw | adcSp | adcSpRot =>
        exact hother (by simp [turnByTurn, hm]) (wlp_readAdc hs h)
      | average =>
        refine hother (by simp [turnByTurn, hm]) (wlp_mono (wlp_of_ensures readAvg_cache) ?_)
        exact fun r _ hr => (h.sound).imp (hr.1.trans ·) (hr.2 ▸ ·)
      | unknown =>
        cases op with
        | none => exact hother (by simp [turnByTurn, hm]) (wlp_readDd_none h)
        | some op =>
          exact hother (by simp [turnByTurn, hm]) (wlp_mono (wlp_readDd hs h) fun _ _ hr => hr.1)
      | dd | pm =>
        cases op with
        | none =>
          exact wlp_mono (wlp_readDd_none h) fun r _ hr => ⟨hr, fun _ _ _ _ hop => by cases hop⟩
        | some op =>
          refine wlp_mono (wlp_readDd hs h) fun r _ hr => ⟨hr.1, fun _ o _ _ hop hok => ?_⟩
          obtain rfl : op = o := Option.some.inj hop
          exact hr.2 hok

/-- **What a read does with a cache that is ready.** The cache is coherent or still marked at the
end. Turn-by-turn data that was read with success was transformed with a coherent cache, by the
operator that it calls for. -/
theorem wlp_read (hs : Within serve g) (h : Ready serve g u l) :
    (l.read tf (.con p) dest count).wlp serve (fun r _ => Sound r.2 u ∧
      ∀ c, l.heap p = some c → turnByTurn c.mode → r.1.rc = cspiOk →
        Coherent r.2.cache u ∧ MadeWith tf (called c.mode r.2.cache) r.2.cache r.1.data) u := by
  refine wlp_bind.2 (wlp_deref.2 fun c hc => ?_)
  refine wlp_seq (wlp_customGetdefaultop h) ?_
  rintro ⟨op, l'⟩ u' ⟨rfl, hheap, h', hdd, hpm⟩
  refine wlp_mono (wlp_readEx hs h') fun r _ ⟨hsound, hread⟩ => ⟨hsound, fun c' hc' hm hok => ?_⟩
  obtain rfl : c = c' := Option.some.inj (hc.symm.trans hc')
  have hc : l'.heap p = some c := by rw [hheap, hc]
  rcases hm with hm | hm
  · obtain ⟨hd, hop⟩ := hdd hm
    obtain ⟨hcoh, hmade, hsame⟩ := hread c _ hc (.inl hm) hop hok
    rw [hsame hd] at hcoh hmade ⊢
    exact ⟨hcoh, hmade⟩
  · obtain ⟨hcoh, hmade, -⟩ := hread c _ hc (.inr hm) (hpm hm) hok
    exact ⟨hcoh, by rwa [called, if_neg (by simp [hm])]⟩

end LiberaDaq.Calibration
