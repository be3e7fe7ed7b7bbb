import LiberaDaq.Kernel.CfgSharing

/-!
# The causes of interlocks

The interrupt handler adds the causes of an interlock to the status that the configuration device
reports, and setting the status, to whatever value, clears it. A process that reads the status is told
of a cause exactly if it came in and no process has cleared the status since (`interlock_causes`). A
process that reads the status and then clears it has not been told of what came in between.
-/

namespace LiberaDaq.Kernel

open LiberaDaq.Cspi LiberaDaq.Interaction Prog

variable {ι : Type} [DecidableEq ι]

/-- The causes of an interlock that came in. -/
def causeIn : Event ShareCall ShareAns → Option Word
  | ⟨.inr (.interlock status), _⟩ => some status
  | _ => none

/-- The status is cleared. -/
def clears (e : Event ShareCall ShareAns) : Bool :=
  (settingIn e).any fun op => op.1 = .ilkstatus

/-- A cause came in, and the status was not cleared since. -/
def Pending (l : List (ShareEntry ι)) (k : ℕ) : Prop :=
  ∃ l₁ e l₂, l = l₁ ++ e :: l₂ ∧ (∃ status, causeIn e.2 = some status ∧ status.getLsbD k = true) ∧
    ∀ e' ∈ l₂, clears e'.2 = false

/-- A call that reads the status is told of the causes that were pending at a moment of the call. A
call that sets parameters clears the status at most once, and only if the status is one of them; if it
returns `CSPI_OK` and the status is one of them, it has cleared it. -/
def IlkLaw (d : Done ι ShareOp (Option ParamResult) (ShareState ι)) : Prop :=
  match d.op, d.result with
  | .get _ _ _ flags, some r => r.1 = cspiOk → flags.hits envIlkstatus = true →
      ∃ l, d.before.2 <+: l ∧ l <+: d.after.2 ∧
        ∀ k, (r.2.val .ilkStatus).getLsbD k = true ↔ Pending l k
  | .set _ _ _ flags, some r => ∃ m, d.after.2 = d.before.2 ++ m ∧
      ((own d.thread m).filter clears).length ≤ (if flags.hits envIlkstatus then 1 else 0) ∧
      (r.1 = cspiOk → flags.hits envIlkstatus = true →
        ((own d.thread m).filter clears).length = 1)
  | _, _ => True

variable {g : Global} {gains : Word → ℤ} {i : ι} {u : CfgWorld} {fd : Option File} {p : EnvParams}
  {flags : Bitmask} {d d' : CfgDevice} {idx : CfgIndex} {val : Word} {v w : SharedCfg ι}
  {l m : List (ShareEntry ι)}

/-! ## The status in the mirror -/

theorem status_setCfg (h : d.setCfg g idx val = some d') :
    d'.param .ilkstatus = if idx = .ilkstatus then 0 else d.param .ilkstatus := by
  by_cases hidx : idx = .ilkstatus
  · subst hidx
    obtain rfl : d.mirror .ilkstatus 0 = d' := Option.some.inj h
    simp [CfgDevice.mirror]
  · simp [hidx, param_setCfg_of_ne h (Ne.symm hidx)]

theorem status_bcdOffsets {x y : Word} :
    (d.bcdOffsets x y).param .ilkstatus = d.param .ilkstatus := by
  have hone : ∀ (d : CfgDevice) (x : Word) (i j : CfgIndex) (r : CfgRegister), i ≠ .ilkstatus →
      (d.checkAndUpdate x i j r).param .ilkstatus = d.param .ilkstatus := by
    intro d x i j r hi
    unfold CfgDevice.checkAndUpdate
    split <;> simp [CfgDevice.mirror, CfgDevice.writel, Ne.symm hi]
  have hx := hone d x .bcdXoffset .xoffset (.faOffset 0) nofun
  exact (hone _ y .bcdYoffset .yoffset (.faOffset 1) nofun).trans hx

theorem status_setAll {ops : List (CfgIndex × Word)} (h : d.param .ilkstatus = 0) :
    (d.setAll g ops).param .ilkstatus = 0 := by
  induction ops generalizing d with
  | nil => exact h
  | cons op ops ih =>
    refine ih (d := (d.setCfg g op.1 op.2).getD d) ?_
    cases hset : d.setCfg g op.1 op.2 with
    | none => exact h
    | some d' => simp [status_setCfg hset, h]

/-- The status is clear when the driver was loaded. -/
theorem status_initSpecific (reg : CfgRegister → Word) :
    (CfgDevice.initSpecific g reg).param .ilkstatus = 0 := by
  rw [initSpecific_eq]
  exact status_setAll rfl

/-- What an entry of the journal does to the status. -/
theorem status_step {e : ShareEntry ι} (h : shareServe g gains e.1 e.2.1 e.2.2 v w) :
    w.dev.param .ilkstatus = match causeIn e.2 with
      | some status => v.dev.param .ilkstatus ||| status
      | none => if clears e.2 then 0 else v.dev.param .ilkstatus := by
  obtain ⟨j, c, x⟩ := e
  cases c with
  | inr c =>
    cases c with
    | interlock status =>
      obtain rfl := h
      simp [causeIn, CfgDevice.ilkHandlerSpecific, CfgDevice.mirror]
    | bcdOffsets =>
      obtain rfl := h
      exact status_bcdOffsets
    | opened f =>
      obtain ⟨-, rfl⟩ := h
      cases x <;> rfl
    | closed f =>
      obtain rfl := h
      simp only [causeIn, clears, settingIn]
      split <;> rfl
  | inl c =>
    obtain ⟨u, hu, rfl⟩ := h
    cases c with
    | setCfg f idx val =>
      simp only [cfgServe] at hu
      split at hu
      · obtain ⟨hx, rfl⟩ := hu
        cases hset : v.dev.setCfg g idx val with
        | none =>
          have hx : x = false := hx.trans (congrArg Option.isSome hset)
          simp [causeIn, clears, settingIn, hx, SharedCfg.seenBy, hset]
        | some d' =>
          have hx : x = true := hx.trans (congrArg Option.isSome hset)
          simp [causeIn, clears, settingIn, hx, SharedCfg.seenBy, hset, status_setCfg hset]
      · obtain ⟨hx, rfl⟩ := hu
        have hx : x = false := hx
        simp [causeIn, clears, settingIn, hx, SharedCfg.seenBy]
    | getCfg =>
      obtain ⟨-, rfl⟩ := hu
      rfl
    | toattn =>
      obtain ⟨-, rfl⟩ := hu
      rfl
    | dscMessage =>
      obtain ⟨x, y, rfl⟩ := hu
      exact status_bcdOffsets
    | hang | fault => exact x.elim
    | _ =>
      obtain rfl : u = _ := hu
      rfl

/-! ## Pending causes -/

omit [DecidableEq ι] in
theorem pending_nil {k : ℕ} : ¬Pending ([] : List (ShareEntry ι)) k := by simp [Pending]

omit [DecidableEq ι] in
/-- The causes that are pending after one more entry. -/
theorem pending_snoc {e : ShareEntry ι} {k : ℕ} : Pending (l ++ [e]) k ↔
    (∃ status, causeIn e.2 = some status ∧ status.getLsbD k = true) ∨
      clears e.2 = false ∧ Pending l k := by
  constructor
  · rintro ⟨l₁, e₁, l₂, hl, hcause, hclear⟩
    induction l₂ using List.reverseRecOn with
    | nil =>
      obtain ⟨-, he⟩ := List.append_inj' hl rfl
      obtain rfl := List.singleton_inj.1 he
      exact .inl hcause
    | append_singleton l₂ e₂ _ =>
      rw [← List.cons_append, ← List.append_assoc] at hl
      obtain ⟨rfl, he⟩ := List.append_inj' hl rfl
      obtain rfl := List.singleton_inj.1 he
      have hlast : clears e.2 = false := hclear e (by simp)
      exact .inr ⟨hlast, l₁, e₁, l₂, rfl, hcause, fun e' he' => hclear e' (by simp [he'])⟩
  · rintro (hcause | ⟨hlast, l₁, e₁, l₂, rfl, hcause, hclear⟩)
    · exact ⟨l, e, [], rfl, hcause, by simp⟩
    · refine ⟨l₁, e₁, l₂ ++ [e], by simp, hcause, fun e' he' => ?_⟩
      rcases List.mem_append.1 he' with he' | he'
      · exact hclear e' he'
      · obtain rfl := List.mem_singleton.1 he'
        exact hlast

/-- **The status is made of the pending causes.** -/
theorem status_followed (h : Followed (shareServe g gains) l v w)
    (hv : v.dev.param .ilkstatus = 0) (k : ℕ) :
    (w.dev.param .ilkstatus).getLsbD k = true ↔ Pending l k := by
  induction l using List.reverseRecOn generalizing w with
  | nil =>
    obtain rfl : w = v := h
    simp [hv, pending_nil]
  | append_singleton l e ih =>
    obtain ⟨w', hl, w₁, he, hw⟩ := followed_append.1 h
    obtain rfl : w = w₁ := hw
    have ih := ih hl
    rw [status_step he, pending_snoc, ← ih]
    cases hcause : causeIn e.2 with
    | some status =>
      have hkeeps : clears e.2 = false := by
        obtain ⟨j, c, x⟩ := e
        cases c with
        | inl => cases hcause
        | inr => rfl
      simp [hkeeps, or_comm]
    | none => cases hclear : clears e.2 <;> simp

/-! ## The calls -/

theorem filter_clears {es : List (Event ShareCall ShareAns)} :
    (es.filter clears).length = ((es.filterMap settingIn).filter (·.1 = .ilkstatus)).length := by
  induction es with
  | nil => rfl
  | cons e es ih =>
    cases hop : settingIn e with
    | none => simpa [hop, clears] using ih
    | some op =>
      by_cases hidx : op.1 = .ilkstatus <;> simpa [hop, clears, hidx] using ih

/-- The status stands once in the table. -/
theorem ilkstatus_mem {decimation : Word} {e : ParamMap} (he : e ∈ setMap decimation)
    (hcode : e.code = .ilkstatus) : e = ⟨envIlkstatus, .ilkstatus, .ilkStatus, .none⟩ :=
  List.inj_on_of_nodup_map (setMap_codes decimation) he
    (List.mem_append_right _ (List.mem_append_left _ (by simp [customSetMap]))) hcode

/-- How often a call clears the status. -/
theorem callSettings_status {decimation : Word} :
    ((callSettings g u fd decimation p flags).filter (·.1 = .ilkstatus)).length ≤
      if flags.hits envIlkstatus then 1 else 0 := by
  have hsub : (if flags.hits envHealth || flags.hits envFeature then baseSetMap
      else setMap decimation) ⊆ setMap decimation := by
    split
    · exact List.subset_append_left _ _
    · exact List.Subset.refl _
  have hcodes : ((callSettings g u fd decimation p flags).map Prod.fst).Nodup := by
    refine List.Nodup.sublist sentParams_sublist ?_
    split
    · decide
    · exact setMap_codes decimation
  split
  · have hmap : ((callSettings g u fd decimation p flags).filter (·.1 = .ilkstatus)).length =
        ((callSettings g u fd decimation p flags).map Prod.fst).count .ilkstatus := by
      rw [List.count_eq_length_filter, List.filter_map, List.length_map]
      rfl
    rw [hmap]
    exact List.nodup_iff_count_le_one.1 hcodes _
  · next hf =>
    have hnone : (callSettings g u fd decimation p flags).filter (·.1 = .ilkstatus) = [] := by
      refine List.filter_eq_nil_iff.2 fun op hop hidx => hf ?_
      obtain ⟨e, he, rfl⟩ := List.mem_map.1 hop
      obtain ⟨he, hf⟩ := List.mem_filter.1 ((List.takeWhile_prefix _).subset he)
      have hcode : e.code = .ilkstatus := of_decide_eq_true hidx
      rw [ilkstatus_mem (hsub he) hcode] at hf
      exact hf
    simp [hnone]

/-- A call that carries all its settings clears the status if it is one of them. -/
theorem allTaken_status {decimation : Word}
    (h : allTaken g u fd p flags (setMap decimation)) (hf : flags.hits envIlkstatus = true) :
    (sentParams g u fd p flags (setMap decimation)).filter (·.1 = .ilkstatus) ≠ [] := by
  let e : ParamMap := ⟨envIlkstatus, .ilkstatus, .ilkStatus, .none⟩
  have he : e ∈ setMap decimation :=
    List.mem_append_right _ (List.mem_append_left _ (by simp [customSetMap, e]))
  have hmem : settingOf u p e ∈ sentParams g u fd p flags (setMap decimation) := by
    rw [sentParams_of_allTaken h]
    exact List.mem_map_of_mem (List.mem_filter.2 ⟨he, hf⟩)
  exact List.ne_nil_of_mem (List.mem_filter.2 ⟨hmem, rfl⟩)

theorem ilkLaw_of_journaled {a b : ShareState ι}
    {d : Done ι ShareOp (Option ParamResult) (ShareState ι)}
    (h : Crowd.Journaled shareSem (shareServe g gains) a b d) (ha : a.1.dev.param .ilkstatus = 0)
    (hempty : a.2 = []) : IlkLaw d := by
  have hlaw := shareLaw_of_journaled h
  obtain ⟨⟨l₀, hl₀⟩, -, -⟩ := h
  obtain ⟨i, op, v, r, w⟩ := d
  cases op with
  | signal c => cases r <;> trivial
  | set l h p flags =>
    cases r with
    | none => trivial
    | some r =>
      obtain ⟨m, hm, hsent, hwhole, -⟩ := hlaw
      have hcount : ((own i m).filter clears).length ≤ if flags.hits envIlkstatus then 1 else 0 := by
        rw [filter_clears, hsent]
        split
        · exact callSettings_status
        · simp
      refine ⟨m, hm.entries, hcount, fun hok hf => ?_⟩
      obtain ⟨rfl, hall, hhealth, hfeature⟩ := hwhole hok
      have hne := allTaken_status hall hf
      rw [hf, if_pos rfl] at hcount
      refine le_antisymm hcount (Nat.one_le_iff_ne_zero.2 fun hzero => hne ?_)
      rw [filter_clears, hsent, if_pos rfl, callSettings, hhealth, hfeature] at hzero
      exact List.eq_nil_of_length_eq_zero hzero
  | get l h q flags =>
    cases r with
    | none => trivial
    | some r =>
      intro hok hf
      have he : (⟨envIlkstatus, .ilkstatus, .ilkStatus, .none⟩ : ParamMap) ∈ getMap :=
        List.mem_append_right _ (by simp [customGetMap])
      obtain ⟨x, ⟨⟨l₁, hl₁⟩, l₂, hl₂⟩, hval⟩ := hlaw hok _ he hf
      refine ⟨x.2, ⟨l₁, hl₁.entries.symm⟩, ⟨l₂, hl₂.entries.symm⟩, fun k => ?_⟩
      have hx := hl₀.trans hl₁
      have hjournal : x.2 = l₀ ++ l₁ := by simpa [hempty] using hx.entries
      rw [hval, hjournal]
      exact status_followed hx.followed ha k

/-! ## Every run -/

/-- **The causes of interlocks.** In every run from the moment at which the driver was loaded the status
consists of the causes that came in since it was cleared last, a call that reads the status is told
of exactly these, and a call that sets parameters clears it once if the status is one of them. -/
theorem interlock_causes {reg : CfgRegister → Word}
    {ds : List (Done ι ShareOp (Option ParamResult) (ShareState ι))}
    {t : Crowd ι ShareOp (Option ParamResult) ShareCall ShareAns (ShareState ι)}
    (h : Crowd.Run shareSem (journal (shareServe g gains))
      (.rest (⟨CfgDevice.initSpecific g reg, none⟩, [])) ds t) :
    (∀ k, (t.world.1.dev.param .ilkstatus).getLsbD k = true ↔ Pending t.world.2 k) ∧
      ∀ d ∈ ds, IlkLaw d := by
  obtain ⟨hds, l, hl⟩ := h.journaled
  have hclear := status_initSpecific (g := g) reg
  refine ⟨fun k => ?_, fun d hd => ilkLaw_of_journaled (hds d hd) hclear rfl⟩
  have hjournal : t.world.2 = l := by simpa using hl.entries
  rw [hjournal]
  exact status_followed hl.followed hclear k

/-- A process reads the status and then clears it, and a cause comes in between. -/
def missing : List (Crowd.Slot Bool ShareOp) :=
  let file : File := ⟨3, .rdwr⟩
  let lib := Lib.loaded.setEnv fun e => { e with fd := some file, usageCount := 1 }
  let zero : EnvParams := ⟨fun _ => 0, ⟨0, 0⟩, 0⟩
  let get : ShareOp := .get lib .env zero envIlkstatus
  [.begin false (.signal (.opened file)), .go false, .go false,
    .begin true (.signal (.interlock 5)), .go true, .go true,
    .begin false get, .go false, .go false,
    .begin true (.signal (.interlock 2)), .go true, .go true,
    .begin false (.set lib .env zero envIlkstatus), .go false, .go false, .go false,
    .begin false get, .go false, .go false]

theorem missing_played : (Crowd.play shareSem shareHandler missing []
    (.rest (⟨CfgDevice.initSpecific brilliance fun _ => 0, none⟩, []))).map
    (fun r => r.1.filterMap fun d => d.result.map fun p => (p.1, p.2.val .ilkStatus)) =
      some [(cspiOk, 5), (cspiOk, 0), (cspiOk, 0)] := by decide +kernel

/-- The second cause is in the journal, and no call was told of it. -/
theorem interlock_causes_missed : ∃ (ds : List (Done Bool ShareOp (Option ParamResult)
      (ShareState Bool))) (t : Crowd Bool ShareOp (Option ParamResult) ShareCall ShareAns
      (ShareState Bool)),
    ((∀ k, (t.world.1.dev.param .ilkstatus).getLsbD k = true ↔ Pending t.world.2 k) ∧
      ∀ d ∈ ds, IlkLaw d) ∧
    ds.filterMap (fun d => d.result.map fun p => (p.1, p.2.val .ilkStatus)) =
      [(cspiOk, 5), (cspiOk, 0), (cspiOk, 0)] := by
  obtain ⟨⟨ds, t⟩, hplay, hout⟩ := Option.map_eq_some_iff.1 missing_played
  exact ⟨ds, t, interlock_causes (Crowd.play_run shareHandler_serves .nil hplay), hout⟩

end LiberaDaq.Kernel
