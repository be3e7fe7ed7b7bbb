import LiberaDaq.Kernel.CfgRepeat
import LiberaDaq.Kernel.Validation

/-!
# Calls that are made again

A call of `cspi_setenvparam` that succeeded leaves words of its own in the structure of the caller:
the gain limit beside its attenuation, and what the DSC server replied. When these are the values
that the structure had, the same call succeeds again and leaves the configuration device as it is;
otherwise a selected parameter has changed under the caller (`repeatable_iff`).
-/

namespace LiberaDaq.Kernel

open LiberaDaq.Interaction LiberaDaq.Cspi Prog

variable {g : Global} {u u' : CfgWorld} {l : Lib} {fd : Option File} {p q q' : EnvParams}
  {flags : Bitmask} {es : List ParamMap} {e : ParamMap} {decimation : Word}

/-! ## Surroundings -/

/-- What a call meets besides the configuration device: the answers of the DSC server and of the PLL
daemon. -/
structure Surroundings where
  dsc : DscMessage → BitVec 64 → ℤ × Option (BitVec 64)
  pll : List (Char × Word) → ℤ

variable {s : Surroundings}

/-- The system in these surroundings. The DSC server may still report offsets. -/
def steadyServe (g : Global) (s : Surroundings) : Serves SysCall SysAns CfgWorld
  | .getCfg _ idx, x, u, u' => x = u.dev.getCfg g idx ∧ u' = u
  | .getfl f, x, u, u' => x = some f.access ∧ u' = u
  | .dscMessage m v, x, u, u' => x = s.dsc m v ∧ ∃ a b, u' = { u with dev := u.dev.bcdOffsets a b }
  | .pllSetcmd cmds, x, u, u' => x = s.pll cmds ∧ u' = u
  | c, x, u, u' => cfgServe g c x u u'

/-- The same, when it reports no offsets that are new. -/
def unchangedServe (g : Global) (s : Surroundings) : Serves SysCall SysAns CfgWorld :=
  fun c x u u' => steadyServe g s c x u u' ∧ ∀ m v, c = .dscMessage m v → u' = u

theorem steadyServe_cfgServe (c : SysCall) (x : SysAns c) (u u' : CfgWorld)
    (h : steadyServe g s c x u u') : cfgServe g c x u u' := by
  cases c with
  | getCfg => exact ⟨.inr h.1, h.2⟩
  | dscMessage => exact h.2
  | getfl | pllSetcmd => exact h.2
  | _ => exact h

theorem unchangedServe_quietServe (c : SysCall) (x : SysAns c) (u u' : CfgWorld)
    (h : unchangedServe g s c x u u') : quietServe g c x u u' :=
  ⟨steadyServe_cfgServe c x u u' h.1, h.2⟩

/-! ## The structure after the tables -/

/-- What the entries that the flags select leave in the structure: the value as its validator adapts
it. -/
structure Adapted (gains : Word → ℤ) (p : EnvParams) (flags : Bitmask) (es : List ParamMap)
    (r : ParamResult) : Prop where
  selected : r.1 = cspiOk → ∀ e ∈ es, flags.hits e.mask = true →
    r.2.val e.field = (evalValidator gains e.validate (p.val e.field)).2
  frame : ∀ f, (∀ e ∈ es, flags.hits e.mask = true → e.field ≠ f) → r.2.val f = p.val f

theorem wlp_handleParams_adapted (hn : (es.map (·.field)).Nodup) :
    (handleParams (setParam fd) flags es p).wlp (cfgServe g)
      (fun r u' => Adapted u.gains p flags es r ∧ u'.gains = u.gains) u := by
  induction es generalizing p u with
  | nil => exact ⟨⟨fun _ => List.forall_mem_nil _, fun _ _ => rfl⟩, rfl⟩
  | cons e es ih =>
    obtain ⟨hn₁, hn⟩ := List.nodup_cons.1 hn
    rw [handleParams]
    cases hf : flags.hits e.mask with
    | false =>
      have hno : ¬flags.hits e.mask = true := by simp [hf]
      refine wlp_mono (ih hn) ?_
      rintro r u' ⟨h, hu'⟩
      refine ⟨⟨fun hr => ?_, fun f hf => ?_⟩, hu'⟩
      · exact List.forall_mem_cons.2 ⟨fun h' => absurd h' hno, h.selected hr⟩
      · exact h.frame f (List.forall_mem_cons.1 hf).2
    | true =>
      refine wlp_seq wlp_setParam ?_
      rintro ⟨rc, p'⟩ u₁ ⟨-, hp', rfl⟩
      dsimp only at hp'
      have hother : ∀ f, e.field ≠ f → p'.val f = p.val f := fun f hne => by
        rw [hp', EnvParams.set_val_of_ne _ hne.symm]
      have hself : p'.val e.field = (evalValidator u.gains e.validate (p.val e.field)).2 := by
        rw [hp', EnvParams.set_val_self]
        rfl
      unfold ParamResult.andThen
      split
      · refine wlp_mono (ih hn) ?_
        rintro r u' ⟨h, hu'⟩
        refine ⟨⟨fun hr => ?_, fun f hf' => ?_⟩, hu'⟩
        · refine List.forall_mem_cons.2 ⟨fun _ => ?_, fun e' he' hf' => ?_⟩
          · rw [h.frame e.field fun e' he' _ heq => hn₁ (List.mem_map.2 ⟨e', he', heq⟩), hself]
          · have hne : e.field ≠ e'.field := fun heq => hn₁ (List.mem_map.2 ⟨e', he', heq.symm⟩)
            rw [h.selected hr e' he' hf', hother _ hne]
            rfl
        · obtain ⟨hfe, hfes⟩ := List.forall_mem_cons.1 hf'
          rw [h.frame f hfes, hother f (hfe hf)]
      · next hrc =>
        refine ⟨⟨fun hr => absurd hr hrc, fun f hf' => ?_⟩, rfl⟩
        exact hother f ((List.forall_mem_cons.1 hf').1 hf)

/-- A walk through the next table. -/
theorem Adapted.walk {es' : List ParamMap} {r : ParamResult} {gains : Word → ℤ}
    (h : Adapted gains p flags es r) (hu : u.gains = gains) (hn : (es'.map (·.field)).Nodup)
    (hdisj : ∀ e ∈ es', e.field ∉ es.map (·.field)) :
    (r.andThen (handleParams (setParam fd) flags es')).wlp (cfgServe g)
      (fun r' u' => Adapted gains p flags (es ++ es') r' ∧ u'.gains = gains) u := by
  have hlater : ∀ e ∈ es', ∀ e' ∈ es, flags.hits e'.mask = true → e'.field ≠ e.field :=
    fun e he e' he' _ heq => hdisj e he (List.mem_map.2 ⟨e', he', heq⟩)
  unfold ParamResult.andThen
  split
  · next hr =>
    refine wlp_mono (wlp_handleParams_adapted hn) fun r' u' ⟨h', hu'⟩ =>
      ⟨⟨fun hr' => List.forall_mem_append.2 ⟨fun e he hf => ?_, fun e he hf => ?_⟩, fun f hf => ?_⟩,
        hu'.trans hu⟩
    · rw [h'.frame e.field fun e' he' hf' heq => hdisj e' he' (List.mem_map.2 ⟨e, he, heq.symm⟩)]
      exact h.selected hr e he hf
    · rw [h'.selected hr' e he hf, h.frame e.field (hlater e he), hu]
    · obtain ⟨hfes, hfes'⟩ := List.forall_mem_append.1 hf
      rw [h'.frame f hfes', h.frame f hfes]
  · next hr =>
    exact ⟨⟨fun h => absurd h hr, fun f hf => h.frame f (List.forall_mem_append.1 hf).1⟩, hu⟩

theorem wlp_baseSetenvparam_adapted : (baseSetenvparam fd flags p).wlp (cfgServe g)
    (fun r u' => Adapted u.gains p flags baseSetMap r ∧ u'.gains = u.gains) u := by
  unfold baseSetenvparam
  split
  · next h0 =>
    subst h0
    have hmask : ∀ m, ¬Bitmask.hits 0 m = true := fun m => by simp [Bitmask.hits]
    exact ⟨⟨fun _ e _ he => absurd he (hmask _), fun _ _ => rfl⟩, rfl⟩
  · refine wlp_seq (wlp_handleParams_adapted (by decide)) ?_
    rintro r u₁ ⟨h, hu₁⟩
    unfold ParamResult.andThen
    split
    · next hr => exact ⟨⟨fun _ => h.selected hr, h.frame⟩, hu₁⟩
    · exact ⟨h, hu₁⟩

/-- What the tables have come to. -/
theorem wlp_setTables_adapted : (setTables fd decimation flags p).wlp (cfgServe g) (fun r u' =>
    Adapted u.gains p flags (setMap decimation) r ∧
      TablesDone g u fd decimation p flags r u') u := by
  refine wlp_and ?_ ?_
  · refine wlp_seq wlp_baseSetenvparam_adapted fun r₁ u₁ ⟨h₁, hu₁⟩ => ?_
    refine wlp_seq (h₁.walk hu₁ (customSetMap_fields _) fun e he hf => ?_) fun r₂ u₂ ⟨h₂, hu₂⟩ => ?_
    · have hf : e.field = .trigMode := List.mem_singleton.1 hf
      exact customSetMap_trigMode decimation (hf ▸ List.mem_map_of_mem (f := (·.field)) he)
    · refine wlp_mono (h₂.walk hu₂ coeffMap_fields (coeffMap_later _)) fun r₃ u₃ ⟨h₃, _⟩ => ?_
      rwa [List.append_assoc] at h₃
  · have hpure : setTables fd decimation flags p = setTables fd decimation flags p >>= Pure.pure :=
      (bind_pure _).symm
    rw [hpure, setTables]
    simp only [bind_assoc]
    exact wlp_tables decimation (fun _ _ _ _ h => h) fun _ _ h => h

/-! ## The daemons -/

/-- What the structure has of a member after a message with its value. -/
def dscReply (s : Surroundings) (m : DscMessage) (w : Word) : Word :=
  (s.dsc m (w.setWidth 64)).2.elim w (·.setWidth 32)

/-- The entry has a valid value, and the DSC server takes it. -/
def DscTaken (s : Surroundings) (q : EnvParams) (e : DscParamMap) : Prop :=
  e.valid q = true ∧ (s.dsc e.msg (e.value.sent q)).1 = cspiOk

/-- An entry that sends a member sends that of its message. -/
theorem value_of_sends {e : DscParamMap} (he : sendsField e = true) :
    (∃ f, e.value = .int f ∧ dscField e.msg = some f) ∨
      e.value = .none ∧ dscField e.msg = none := by
  unfold sendsField at he
  split at he
  · next f f' hvalue hmsg =>
    obtain rfl : f = f' := of_decide_eq_true he
    exact .inl ⟨f, hvalue, hmsg⟩
  · next hvalue hmsg => exact .inr ⟨hvalue, hmsg⟩
  · cases he

theorem dscTaken_congr {e : DscParamMap} (he : sendsField e = true)
    (h : ∀ f, dscField e.msg = some f → q'.val f = q.val f) : DscTaken s q' e ↔ DscTaken s q e := by
  obtain ⟨m, msg, value, validate⟩ := e
  obtain ⟨f, rfl, hmsg⟩ | ⟨rfl, -⟩ := value_of_sends he
  · cases validate <;> simp only [DscTaken, DscParamMap.valid, DscValue.sent, h f hmsg]
  · cases validate <;> exact Iff.rfl

theorem received_of_sends {e : DscParamMap} (he : sendsField e = true) {f : EnvField}
    (hf : dscField e.msg = some f) :
    ((s.dsc e.msg (e.value.sent q)).2.elim q fun w => e.value.received w q).val f =
      dscReply s e.msg (q.val f) := by
  obtain ⟨f', hvalue, hmsg⟩ | ⟨-, hmsg⟩ := value_of_sends he
  · obtain rfl : f' = f := Option.some.inj (hmsg.symm.trans hf)
    rw [hvalue, dscReply, DscValue.sent]
    cases (s.dsc e.msg ((q.val f').setWidth 64)).2 with
    | none => rfl
    | some w => exact EnvParams.set_val_self _ _ _
  · rw [hmsg] at hf
    cases hf

/-- What the messages of a table have come to. -/
structure Replied (s : Surroundings) (q : EnvParams) (flags : Bitmask) (es : List DscParamMap)
    (r : ParamResult) : Prop where
  ok : r.1 = cspiOk ↔ ∀ e ∈ es, flags.hits e.mask = true → DscTaken s q e
  selected : r.1 = cspiOk → ∀ e ∈ es, flags.hits e.mask = true → ∀ f, dscField e.msg = some f →
    r.2.val f = dscReply s e.msg (q.val f)
  frame : ∀ f, (∀ e ∈ es, flags.hits e.mask = true → dscField e.msg ≠ some f) → r.2.val f = q.val f

theorem wlp_dscHandleParams_steady {es : List DscParamMap} (hsend : ∀ e ∈ es, sendsField e = true)
    (hn : (es.flatMap dscEntryFields).Nodup) : (ebppDscHandleParams flags es q).wlp
      (steadyServe g s) (fun r _ => Replied s q flags es r) u := by
  induction es generalizing q u with
  | nil => exact ⟨by simp, fun _ => List.forall_mem_nil _, fun _ _ => rfl⟩
  | cons e es ih =>
    obtain ⟨hsend₁, hsend⟩ := List.forall_mem_cons.1 hsend
    rw [List.flatMap_cons] at hn
    have ih := fun {q u} => ih (q := q) (u := u) hsend hn.of_append_right
    rw [ebppDscHandleParams]
    cases hf : flags.hits e.mask with
    | false =>
      have hno : ¬flags.hits e.mask = true := by simp [hf]
      refine wlp_mono ih fun r u' h => ⟨?_, fun hr => ?_, fun f hf => ?_⟩
      · rw [h.ok, List.forall_mem_cons]
        exact ⟨fun h => ⟨fun h' => absurd h' hno, h⟩, fun h => h.2⟩
      · exact List.forall_mem_cons.2 ⟨fun h' => absurd h' hno, h.selected hr⟩
      · exact h.frame f (List.forall_mem_cons.1 hf).2
    | true =>
      rw [if_pos rfl]
      split
      · next hvalid =>
        refine wlp_perform_bind.2 ?_
        rintro ⟨rc, reply⟩ u₁ ⟨hx, -⟩
        have hrc : rc = (s.dsc e.msg (e.value.sent q)).1 := congrArg Prod.fst hx
        have hreply : reply = (s.dsc e.msg (e.value.sent q)).2 := congrArg Prod.snd hx
        have htaken : rc = cspiOk ↔ DscTaken s q e := by
          rw [hrc]
          exact ⟨fun h => ⟨hvalid, h⟩, fun h => h.2⟩
        dsimp only
        have hself : ∀ f, dscField e.msg = some f →
            (reply.elim q fun w => e.value.received w q).val f = dscReply s e.msg (q.val f) := by
          rw [hreply]
          exact fun f => received_of_sends hsend₁
        have hother : ∀ f, dscField e.msg ≠ some f →
            (reply.elim q fun w => e.value.received w q).val f = q.val f := fun f hf =>
          received_frame hsend₁ fun h => hf (Option.mem_toList.1 h)
        generalize (reply.elim q fun w => e.value.received w q) = q₁ at hself hother ⊢
        have hdisj : ∀ e' ∈ es, ∀ f, dscField e'.msg = some f → dscField e.msg ≠ some f :=
          fun e' he' f hf' hf => List.disjoint_of_nodup_append hn (Option.mem_toList.2 hf)
            (List.mem_flatMap.2 ⟨e', he', Option.mem_toList.2 hf'⟩)
        unfold ParamResult.andThen
        split
        · next hok =>
          refine wlp_mono ih fun r u' h => ⟨?_, fun hr => ?_, fun f hf' => ?_⟩
          · rw [h.ok, List.forall_mem_cons, and_iff_right fun _ => htaken.1 hok]
            refine forall₃_congr fun e' he' _ => dscTaken_congr (hsend e' he') fun f hf' => ?_
            exact hother f (hdisj e' he' f hf')
          · refine List.forall_mem_cons.2 ⟨fun _ f hf' => ?_, fun e' he' hit f hf' => ?_⟩
            · rw [h.frame f fun e' he' _ h' => hdisj e' he' f h' hf', hself f hf']
            · rw [h.selected hr e' he' hit f hf', hother f (hdisj e' he' f hf')]
          · obtain ⟨hfe, hfes⟩ := List.forall_mem_cons.1 hf'
            rw [h.frame f hfes, hother f (hfe hf)]
        · next hno =>
          refine ⟨iff_of_false hno fun h => ?_, fun h => absurd h hno, fun f hf' => ?_⟩
          · exact hno (htaken.2 ((List.forall_mem_cons.1 h).1 hf))
          · exact hother f ((List.forall_mem_cons.1 hf').1 hf)
      · next hvalid =>
        have hno : cspiEInvalidParam ≠ cspiOk := by decide
        exact ⟨iff_of_false hno fun h => hvalid ((List.forall_mem_cons.1 h).1 hf).1,
          fun h => absurd h hno, fun _ _ => rfl⟩

/-- The switches, when `CSPI_SWITCH_DIRECT` has been replaced. -/
def resolved (g : Global) (q : EnvParams) : Word :=
  if q.val .switches = switchDirect then directSwitches g.feature else q.val .switches

/-- The values that the messages carry. -/
def messaged (g : Global) (q : EnvParams) : EnvParams := q.set .switches (resolved g q)

theorem wlp_resolveSwitches_steady : (resolveSwitches fd q).wlp (steadyServe g s) (fun r _ =>
    (r.1 = cspiOk ↔ (q.val .switches = switchDirect → fd.isSome = true)) ∧
      (r.1 = cspiOk → r.2.val .switches = resolved g q) ∧
      ∀ f, f ≠ .switches → f ≠ .featureCustomer → f ≠ .featureItech → r.2.val f = q.val f) u := by
  unfold resolveSwitches resolved
  split
  · next hd =>
    rw [getfeatureparam, if_pos (by decide)]
    cases fd with
    | none =>
      have hno : cspiESystem ≠ cspiOk := by decide
      exact ⟨iff_of_false hno fun h => absurd (h hd) (by simp), fun h => absurd h hno,
        fun _ _ _ _ => rfl⟩
    | some f =>
      rintro _ _ ⟨rfl, rfl⟩ _ _ ⟨rfl, rfl⟩
      refine ⟨iff_of_true rfl fun _ => rfl, fun _ => ?_, fun f hs hc hi => ?_⟩
      · exact EnvParams.set_val_self _ _ _
      · exact (EnvParams.set_val_of_ne _ hs _).trans
          ((EnvParams.set_val_of_ne _ hi _).trans (EnvParams.set_val_of_ne _ hc _))
  · next hd => exact ⟨iff_of_true rfl fun h => absurd h hd, fun _ => rfl, fun _ _ _ _ => rfl⟩

/-- The PLL daemon takes the commands of a call, or there are none. -/
def PllTaken (s : Surroundings) (flags : Bitmask) (q : EnvParams) : Prop :=
  ∃ cmds, pllCommands flags q pllSetMap = some cmds ∧ (cmds ≠ [] → s.pll cmds = cspiOk)

theorem pllCommands_congr {es : List PllParamMap}
    (h : ∀ e ∈ es, flags.hits e.mask = true → q'.val e.field = q.val e.field) :
    pllCommands flags q' es = pllCommands flags q es := by
  induction es with
  | nil => rfl
  | cons e es ih =>
    obtain ⟨he, hes⟩ := List.forall_mem_cons.1 h
    rw [pllCommands, pllCommands, ih hes]
    split
    · next hf => rw [he hf]
    · rfl

theorem wlp_setPllparam_steady : (ebppSetPllparam flags q).wlp (steadyServe g s)
    (fun r _ => (r.1 = cspiOk ↔ PllTaken s flags q) ∧ r.2 = q) u := by
  unfold ebppSetPllparam
  split
  · next hcmds =>
    refine ⟨iff_of_false (show cspiEInvalidParam ≠ cspiOk by decide) ?_, rfl⟩
    rintro ⟨cmds, h, -⟩
    rw [hcmds] at h
    cases h
  · next hcmds => exact ⟨iff_of_true rfl ⟨[], hcmds, fun h => absurd rfl h⟩, rfl⟩
  · next cmds hne hcmds =>
    refine wlp_perform_bind.2 ?_
    rintro rc u₁ ⟨rfl, -⟩
    refine ⟨⟨fun h => ⟨cmds, hcmds, fun _ => h⟩, ?_⟩, rfl⟩
    rintro ⟨cmds', h, hok⟩
    obtain rfl : cmds = cmds' := Option.some.inj (hcmds.symm.trans h)
    exact hok hne

/-- Both daemons take what the flags select. -/
structure DaemonsTake (g : Global) (s : Surroundings) (fd : Option File) (flags : Bitmask)
    (q : EnvParams) : Prop where
  writable : writable fd = true
  feature : q.val .switches = switchDirect → fd.isSome = true
  dsc : ∀ e ∈ dscSetMap, flags.hits e.mask = true → DscTaken s (messaged g q) e
  pll : PllTaken s flags q

/-- What the daemons leave in the structure. -/
structure Exchanged (g : Global) (s : Surroundings) (flags : Bitmask) (q : EnvParams)
    (r : ParamResult) : Prop where
  selected : ∀ e ∈ dscSetMap, flags.hits e.mask = true → ∀ f, dscField e.msg = some f →
    r.2.val f = dscReply s e.msg ((messaged g q).val f)
  switches : flags.hits envSwitch = false → r.2.val .switches = resolved g q
  frame : ∀ f, foreign f = true → r.2.val f = q.val f

theorem foreign_ne {f : EnvField} (hf : foreign f = true) : f ≠ .switches ∧ f ≠ .featureCustomer ∧
    f ≠ .featureItech ∧ ∀ e ∈ dscSetMap, dscField e.msg ≠ some f := by
  simp only [foreign, List.mem_cons, not_or, decide_eq_true_eq] at hf
  refine ⟨hf.1, hf.2.2.2.2.1, hf.2.2.2.2.2.1, ?_⟩
  have hfields : ∀ e ∈ dscSetMap, ∀ f', dscField e.msg = some f' → foreign f' = false := by
    simp only [dscSetMap, List.forall_mem_cons]
    exact ⟨by rintro _ ⟨⟩; rfl, by rintro _ ⟨⟩; rfl, by rintro _ ⟨⟩; rfl, by rintro _ ⟨⟩; rfl,
      by rintro _ ⟨⟩, List.forall_mem_nil _⟩
  intro e he h
  have hno := hfields e he f h
  simp only [foreign, List.mem_cons, decide_eq_false_iff_not, not_not] at hno
  simp [hf] at hno

/-- Members of messages but for the switches are as they were. -/
theorem messaged_val {f : EnvField} (hne : f ≠ .switches) : (messaged g q).val f = q.val f :=
  EnvParams.set_val_of_ne _ hne _

theorem wlp_setdscparam_steady : (ebppSetdscparam fd flags q).wlp (steadyServe g s) (fun r _ =>
    (r.1 = cspiOk ↔ writable fd = true ∧ (q.val .switches = switchDirect → fd.isSome = true) ∧
      ∀ e ∈ dscSetMap, flags.hits e.mask = true → DscTaken s (messaged g q) e) ∧
    (r.1 = cspiOk → Exchanged g s flags q r) ∧ ∀ f, foreign f = true → r.2.val f = q.val f) u := by
  have hno : cspiESystem ≠ cspiOk := by decide
  have hwrite : (mayWrite fd).wlp (steadyServe g s) (fun b u' => b = writable fd ∧ u' = u) u := by
    cases fd with
    | none => exact ⟨rfl, rfl⟩
    | some f =>
      rintro _ u' ⟨rfl, rfl⟩
      exact ⟨rfl, rfl⟩
  refine wlp_seq hwrite ?_
  rintro _ _ ⟨rfl, rfl⟩
  split
  · next hw =>
    refine wlp_seq wlp_resolveSwitches_steady ?_
    rintro r u₁ ⟨hok, hsw, hframe⟩
    have hforeign : ∀ f, foreign f = true → r.2.val f = q.val f := fun f hf =>
      hframe f (foreign_ne hf).1 (foreign_ne hf).2.1 (foreign_ne hf).2.2.1
    unfold ParamResult.andThen
    split
    · next hr =>
      have hval : ∀ e ∈ dscSetMap, ∀ f, dscField e.msg = some f →
          r.2.val f = (messaged g q).val f := by
        intro e he f hf
        by_cases hne : f = .switches
        · subst hne
          exact (hsw hr).trans (EnvParams.set_val_self _ _ _).symm
        · rw [messaged_val hne]
          refine hframe f hne ?_ ?_ <;> (rintro rfl; revert hf; cases e.msg <;> nofun)
      refine wlp_mono (wlp_dscHandleParams_steady dscSetMap_sends (by decide)) fun r' u' h =>
        ⟨?_, fun hr' => ⟨fun e he hit f hf => ?_, fun hno => ?_, fun f hf => ?_⟩, fun f hf => ?_⟩
      · rw [h.ok, and_iff_right hw, and_iff_right (hok.1 hr)]
        exact forall₃_congr fun e he _ => dscTaken_congr (dscSetMap_sends e he) (hval e he)
      · rw [h.selected hr' e he hit f hf, hval e he f hf]
      · rw [h.frame .switches fun e he hit hmsg => ?_, hsw hr]
        rw [dscField_of_switches he hmsg, hno] at hit
        cases hit
      · rw [h.frame f fun e he _ => (foreign_ne hf).2.2.2 e he, hforeign f hf]
      · rw [h.frame f fun e he _ => (foreign_ne hf).2.2.2 e he, hforeign f hf]
    · next hr =>
      exact ⟨iff_of_false hr fun h => hr (hok.2 h.2.1), fun h => absurd h hr, hforeign⟩
  · next hw => exact ⟨iff_of_false hno fun h => hw h.1, fun h => absurd h hno, fun _ _ => rfl⟩

theorem pllSetMap_foreign : ∀ e ∈ pllSetMap, foreign e.field = true := by
  simp only [pllSetMap, List.forall_mem_cons]
  exact ⟨rfl, rfl, rfl, rfl, rfl, rfl, List.forall_mem_nil _⟩

/-- What the daemons make of a structure that the tables left. -/
theorem wlp_setDaemons_steady {r : ParamResult} : (setDaemons fd flags r).wlp (steadyServe g s)
    (fun r' _ => (r'.1 = cspiOk ↔ r.1 = cspiOk ∧ DaemonsTake g s fd flags r.2) ∧
      (r'.1 = cspiOk → Exchanged g s flags r.2 r')) u := by
  unfold setDaemons
  by_cases hr : r.1 = cspiOk
  · rw [ParamResult.andThen, if_pos hr]
    refine wlp_seq wlp_setdscparam_steady ?_
    rintro r₁ u₁ ⟨hok, hex, hframe⟩
    have hpll : PllTaken s flags r₁.2 ↔ PllTaken s flags r.2 := by
      unfold PllTaken
      rw [pllCommands_congr fun e he _ => hframe _ (pllSetMap_foreign e he)]
    unfold ParamResult.andThen
    split
    · next hr₁ =>
      refine wlp_mono wlp_setPllparam_steady ?_
      rintro ⟨rc, q₂⟩ u₂ ⟨hrc, rfl⟩
      obtain ⟨hw, hf, hd⟩ := hok.1 hr₁
      have hx := hex hr₁
      refine ⟨?_, fun _ => ⟨hx.selected, hx.switches, hx.frame⟩⟩
      rw [hrc, hpll, and_iff_right hr]
      exact ⟨fun h => ⟨hw, hf, hd, h⟩, fun h => h.pll⟩
    · next hr₁ =>
      refine ⟨iff_of_false hr₁ fun h => hr₁ (hok.2 ⟨h.2.writable, h.2.feature, h.2.dsc⟩), ?_⟩
      exact fun h => absurd h hr₁
  · have hstop : ∀ k, r.andThen k = Pure.pure r := fun k => if_neg hr
    simp only [hstop, pure_bind']
    exact ⟨iff_of_false hr fun h => hr h.1, fun h => absurd h hr⟩

/-! ## Whole calls -/

/-- The members that the daemons take are those that the flags select for them. -/
theorem DaemonsTake.congr (h : DaemonsTake g s fd flags q)
    (hdsc : ∀ e ∈ dscSetMap, flags.hits e.mask = true → ∀ f, dscField e.msg = some f →
      q'.val f = q.val f)
    (hpll : ∀ e ∈ pllSetMap, flags.hits e.mask = true → q'.val e.field = q.val e.field)
    (hsw : q'.val .switches = switchDirect → q.val .switches = switchDirect) :
    DaemonsTake g s fd flags q' where
  writable := h.writable
  feature hd := h.feature (hsw hd)
  dsc e he hit := by
    refine (dscTaken_congr (dscSetMap_sends e he) fun f hf => ?_).2 (h.dsc e he hit)
    have hval : q'.val f = q.val f := hdsc e he hit f hf
    by_cases hne : f = .switches
    · subst hne
      simp only [messaged, EnvParams.set_val_self, resolved, hval]
    · rw [messaged_val hne, messaged_val hne, hval]
  pll := by
    obtain ⟨cmds, hcmds, hok⟩ := h.pll
    exact ⟨cmds, (pllCommands_congr hpll).trans hcmds, hok⟩

/-- The call is taken by the device and by the daemons. -/
structure CallTaken (g : Global) (s : Surroundings) (u : CfgWorld) (fd : Option File)
    (decimation : Word) (p : EnvParams) (flags : Bitmask) : Prop where
  tables : allTaken g u fd p flags (setMap decimation)
  settable : flags.hits envHealth = false ∧ flags.hits envFeature = false
  daemons : DaemonsTake g s fd flags p

/-- What a call has come to: its code, and the structure when it succeeded. -/
structure CallDone (g : Global) (s : Surroundings) (u : CfgWorld) (fd : Option File)
    (decimation : Word) (p : EnvParams) (flags : Bitmask) (r : ParamResult) : Prop where
  ok : r.1 = cspiOk ↔ CallTaken g s u fd decimation p flags
  tables : r.1 = cspiOk → ∀ e ∈ setMap decimation, flags.hits e.mask = true →
    r.2.val e.field = (evalValidator u.gains e.validate (p.val e.field)).2
  replies : r.1 = cspiOk → ∀ e ∈ dscSetMap, flags.hits e.mask = true → ∀ f,
    dscField e.msg = some f → r.2.val f = dscReply s e.msg ((messaged g p).val f)
  switches : r.1 = cspiOk → flags.hits envSwitch = false → r.2.val .switches = resolved g p
  pll : r.1 = cspiOk → ∀ e ∈ pllSetMap, r.2.val e.field = p.val e.field

/-- The device after reports of the DSC server. -/
def CfgDevice.reported (d : CfgDevice) (xs : List (Word × Word)) : CfgDevice :=
  xs.foldl (fun d x => d.bcdOffsets x.1 x.2) d

theorem setMap_foreign : ∀ e ∈ setMap decimation, foreign e.field = true := by
  intro e he
  rw [setMap, ← List.append_assoc, List.mem_append] at he
  rcases he with he | he
  · have hfields : (baseSetMap ++ customSetMap decimation).map (·.field) =
        (baseSetMap ++ customSetMap 0).map (·.field) := rfl
    have hall : ∀ f ∈ (baseSetMap ++ customSetMap 0).map (·.field), foreign f = true := by decide
    exact hall _ (hfields ▸ List.mem_map_of_mem (f := (·.field)) he)
  · simp only [coeffMap, List.mem_append, List.mem_map] at he
    obtain ⟨i, -, rfl⟩ | ⟨i, -, rfl⟩ | ⟨i, -, rfl⟩ := he <;> rfl

theorem wlp_setDaemons_reported {r : ParamResult} : (setDaemons fd flags r).wlp (cfgServe g)
    (fun _ u' => ∃ xs, u' = { u with dev := u.dev.reported xs }) u := by
  have hspares : Only sparesDevice (setDaemons fd flags r) :=
    only_setDaemons (fun _ _ => trivial) (fun _ => trivial) (fun _ _ _ => trivial) fun _ => trivial
  refine wlp_mono (wlp_keep hspares ?_ ⟨[], rfl⟩) fun _ _ h => h.2
  rintro c x v v' hc hx ⟨xs, rfl⟩
  cases c with
  | setCfg => exact hc.elim
  | getCfg | toattn => exact ⟨xs, hx.2⟩
  | dscMessage m w =>
    obtain ⟨a, b, rfl⟩ := hx
    exact ⟨xs ++ [(a, b)], by simp [CfgDevice.reported]⟩
  | hang | fault => exact x.elim
  | _ => exact ⟨xs, hx⟩

/-- What a call has made of the world. -/
def CallWorld (g : Global) (u : CfgWorld) (fd : Option File) (decimation : Word) (p : EnvParams)
    (flags : Bitmask) (u' : CfgWorld) : Prop :=
  ∃ xs, u' = { u with
    dev := (u.dev.setAll g (callSettings g u fd decimation p flags)).reported xs }

theorem wlp_setEnvparams_steady : (setEnvparams fd decimation flags p).wlp (steadyServe g s)
    (fun r u' => CallDone g s u fd decimation p flags r ∧
      CallWorld g u fd decimation p flags u') u := by
  rw [setEnvparams_eq]
  refine wlp_seq (wlp_of_serves steadyServe_cfgServe wlp_setTables_adapted) ?_
  rintro r u₁ ⟨hadapted, hok, hframe, rfl⟩
  refine wlp_mono (wlp_and wlp_setDaemons_steady
    (wlp_of_serves steadyServe_cfgServe wlp_setDaemons_reported)) ?_
  rintro r' u' ⟨⟨hok', hex⟩, xs, rfl⟩
  have hdaemon : ∀ f, ((∃ m, dscField m = some f) ∨ ∃ e ∈ pllSetMap, e.field = f) →
      r.2.val f = p.val f := fun f hf => hframe f (daemon_fields hf)
  have hsw : r.2.val .switches = p.val .switches := hdaemon _ (.inl ⟨.setSwitch, rfl⟩)
  have hresolved : resolved g r.2 = resolved g p := by
    simp only [resolved, hsw]
  have hmessaged : ∀ f, (∃ m, dscField m = some f) →
      (messaged g r.2).val f = (messaged g p).val f := fun f hf => by
    by_cases hne : f = .switches
    · subst hne
      simp only [messaged, EnvParams.set_val_self, hresolved]
    · rw [messaged_val hne, messaged_val hne, hdaemon f (.inl hf)]
  have htake : DaemonsTake g s fd flags r.2 ↔ DaemonsTake g s fd flags p := by
    constructor
    · exact fun h => h.congr (fun e _ _ f hf => (hdaemon f (.inl ⟨_, hf⟩)).symm)
        (fun e he _ => (hdaemon _ (.inr ⟨e, he, rfl⟩)).symm) fun h => hsw.trans h
    · exact fun h => h.congr (fun e _ _ f hf => hdaemon f (.inl ⟨_, hf⟩))
        (fun e he _ => hdaemon _ (.inr ⟨e, he, rfl⟩)) fun h => hsw.symm.trans h
  refine ⟨⟨?_, fun hr' e he hit => ?_, fun hr' e he hit f hf => ?_, fun hr' hno => ?_,
    fun hr' e he => ?_⟩, xs, rfl⟩
  · rw [hok', hok, htake]
    exact ⟨fun h => ⟨h.1.1, h.1.2, h.2⟩, fun h => ⟨⟨h.tables, h.settable⟩, h.daemons⟩⟩
  · rw [(hex hr').frame _ (setMap_foreign e he)]
    exact hadapted.selected (hok'.1 hr').1 e he hit
  · rw [(hex hr').selected e he hit f hf, hmessaged f ⟨_, hf⟩]
  · rw [(hex hr').switches hno, hresolved]
  · rw [(hex hr').frame _ (pllSetMap_foreign e he), hdaemon _ (.inr ⟨e, he, rfl⟩)]

theorem wlp_setenvparam_steady : (l.setenvparam .env p flags).wlp (steadyServe g s) (fun r u' =>
    (CallDone g s u l.env.fd l.decimation p flags r.1 ∧
      CallWorld g u l.env.fd l.decimation p flags u') ∧
    r.2.env.fd = l.env.fd ∧ r.2.decimation = l.decimation ∧ r.2.env.mutex = false) u := by
  rw [Lib.setenvparam, wlp_bind]
  refine wlp_bind.2 (wlp_lock.2 fun _ => wlp_bind.2 (wlp_bind.2 ?_))
  exact wlp_mono wlp_setEnvparams_steady fun _ _ h => ⟨h, rfl, rfl, rfl⟩

theorem wlp_setenvparam_handle {h : Handle} (hh : h ≠ .env) :
    (l.setenvparam h p flags).wlp (steadyServe g s) (fun r _ => r.1.1 ≠ cspiOk) u := by
  have hno : cspiEInvalidHandle ≠ cspiOk := by decide
  cases h with
  | null => exact hno
  | env => exact absurd rfl hh
  | con a =>
    rw [Lib.setenvparam, Lib.isHenv, wlp_bind, wlp_bind, wlp_deref]
    exact fun _ _ => hno

/-! ## The structure of the caller -/

/-- What a call leaves in the selected members is what they had: the gain limit is its own packing,
and the DSC server replies with the value of the caller. -/
structure Unaltered (g : Global) (s : Surroundings) (u : CfgWorld) (p : EnvParams)
    (flags : Bitmask) : Prop where
  gainLimit : flags.hits envIlk = true → (p.val (.ilk .gainLimit) <<< 16) |||
    (BitVec.ofInt 32 (u.gains (p.val (.ilk .gainLimit))) &&& 0x0000ffff) = p.val (.ilk .gainLimit)
  replies : ∀ e ∈ dscSetMap, flags.hits e.mask = true → ∀ f, dscField e.msg = some f →
    dscReply s e.msg ((messaged g p).val f) = p.val f

theorem gainLimit_mem : paramIlk .gainLimit .setGainlimit ∈ setMap decimation := by
  refine List.mem_append_right _ (List.mem_append_left _ ?_)
  simp only [customSetMap, List.mem_cons, true_or, or_true]

/-- Only the gain limit is adapted by the tables. -/
theorem adapted_eq (he : e ∈ setMap decimation) (gains : Word → ℤ) (w : Word) :
    e = paramIlk .gainLimit .setGainlimit ∨ (evalValidator gains e.validate w).2 = w := by
  have hsound : Sound decimation gains e := setMap_sound e he
  unfold Sound at hsound
  split at hsound
  · next hv => exact .inr (hv ▸ rfl)
  · next hv => exact .inr (hv ▸ rfl)
  · exact .inl (List.inj_on_of_nodup_map (setMap_codes decimation) he gainLimit_mem hsound.1)
  · exact hsound.elim

/-- **The selected members are as they were exactly when the call leaves the values of the
caller.** -/
theorem CallDone.kept_iff {r : ParamResult} (h : CallDone g s u fd decimation p flags r)
    (hr : r.1 = cspiOk) :
    (∀ f, Selects flags f → r.2.val f = p.val f) ↔ Unaltered g s u p flags := by
  constructor
  · intro hkept
    refine ⟨fun hilk => ?_, fun e he hit f hf => ?_⟩
    · have hval : r.2.val (.ilk .gainLimit) =
          (evalValidator u.gains .setGainlimit (p.val (.ilk .gainLimit))).2 :=
        h.tables hr _ gainLimit_mem hilk
      have htaken := ((h.ok.1 hr).tables _ gainLimit_mem hilk)
      simp only [taken, Bool.and_eq_true] at htaken
      have hlisted : u.gains (p.val (.ilk .gainLimit)) ≠ -1 := by
        intro hno
        have hvalid : (evalValidator u.gains .setGainlimit (p.val (.ilk .gainLimit))).1 = true :=
          htaken.1.1
        simp [evalValidator, hno] at hvalid
      rw [hkept (.ilk .gainLimit) (.inl ⟨_, gainLimit_mem, hilk, rfl⟩)] at hval
      simpa only [evalValidator, if_neg hlisted] using hval.symm
    · rw [← h.replies hr e he hit f hf]
      exact hkept f (.inr (.inl ⟨e, he, hit, hf⟩))
  · rintro hsame f (⟨e, he, hit, rfl⟩ | ⟨e, he, hit, hf⟩ | ⟨e, he, -, rfl⟩)
    · obtain ⟨e', he', hmask, hfield⟩ : ∃ e' ∈ setMap decimation, _ := exists_mem_setMap he
      rw [← hmask] at hit
      rw [← hfield, h.tables hr e' he' hit]
      rcases adapted_eq he' u.gains (p.val e'.field) with rfl | heq
      · simp only [paramIlk, evalValidator]
        split
        · rfl
        · exact hsame.gainLimit hit
      · exact heq
    · rw [h.replies hr e he hit f hf, hsame.replies e he hit f hf]
    · exact h.pll hr e he

/-! ## The same call again -/

/-- A run of `cspi_setenvparam` in these surroundings. -/
def SteadyRun (g : Global) (s : Surroundings) (l : Lib) (u : CfgWorld) (h : Handle) (p : EnvParams)
    (flags : Bitmask) (r : ParamResult) (l' : Lib) (u' : CfgWorld) : Prop :=
  ∃ tr, (l.setenvparam h p flags).Runs tr (r, l') ∧ Served (steadyServe g s) tr u u'

/-- The same, when the surroundings do not change. -/
def AgainRun (g : Global) (s : Surroundings) (l : Lib) (u : CfgWorld) (h : Handle) (p : EnvParams)
    (flags : Bitmask) (r : ParamResult) (l' : Lib) (u' : CfgWorld) : Prop :=
  ∃ tr, (l.setenvparam h p flags).Runs tr (r, l') ∧ Served (unchangedServe g s) tr u u'

/-- A call that succeeded has left the selected members of the structure as they were, and the same
call with the structure that it left returns, succeeds and leaves the configuration as it is; the
filters get the same words. -/
structure Repeatable (g : Global) (s : Surroundings) (u : CfgWorld) (h : Handle) (p : EnvParams)
    (flags : Bitmask) (p₁ : EnvParams) (l₁ : Lib) (u₁ : CfgWorld) : Prop where
  kept : ∀ f, Selects flags f → p₁.val f = p.val f
  returns : ∃ r l₂ u₂, AgainRun g s l₁ u₁ h p₁ flags r l₂ u₂
  again : ∀ r l₂ u₂, AgainRun g s l₁ u₁ h p₁ flags r l₂ u₂ →
    r.1 = cspiOk ∧ SameConfig u₁.dev u₂.dev ∧ ∃ words, u₁.dev.sent = u.dev.sent ++ words ∧
      u₂.dev.sent = u₁.dev.sent ++ words

/-- While the environment is not locked, the call returns. -/
theorem exists_againRun (hm : l.env.mutex = false) :
    ∃ r l' u', AgainRun g s l u .env p flags r l' u' := by
  let P : SysCall → Prop := fun c => ∀ v, ∃ x v', unchangedServe g s c x v v'
  have hgain : ∀ w, P (.toattn w) := fun w v => ⟨v.gains w, v, ⟨rfl, rfl⟩, by rintro _ _ ⟨⟩⟩
  have hset : ∀ f idx w, P (.setCfg f idx w) := fun f idx w v => by
    obtain ⟨x, v', hx⟩ := exists_cfgServe_setCfg g f idx w v
    exact ⟨x, v', hx, by rintro _ _ ⟨⟩⟩
  have hdsc : ∀ m w, P (.dscMessage m w) := fun m w v =>
    ⟨s.dsc m w, v, ⟨rfl, v.dev.param .bcdXoffset, v.dev.param .bcdYoffset, by rw [bcdOffsets_self]⟩,
      fun _ _ _ => rfl⟩
  have honly : Only P (l.setenvparam .env p flags) :=
    only_setenvparam hm hgain hset hdsc (fun f v => ⟨some f.access, v, ⟨rfl, rfl⟩, by rintro _ _ ⟨⟩⟩)
      (fun f idx v => ⟨v.dev.getCfg g idx, v, ⟨rfl, rfl⟩, by rintro _ _ ⟨⟩⟩)
      fun cmds v => ⟨s.pll cmds, v, ⟨rfl, rfl⟩, by rintro _ _ ⟨⟩⟩
  obtain ⟨tr, ⟨r, l'⟩, u', hr, hs⟩ := exists_served honly (fun c v hc => hc v) u
  exact ⟨r, l', u', tr, hr, hs⟩

/-- Reports of the DSC server keep the parameters that can be set, and send nothing to the
filters. -/
theorem reported_frame {d : CfgDevice} {xs : List (Word × Word)} :
    (d.reported xs).sent = d.sent ∧ ∀ j, j ≠ .bcdXoffset → j ≠ .bcdYoffset →
      (d.reported xs).param j = d.param j := by
  have hone : ∀ (d : CfgDevice) (x : Word) (b k : CfgIndex) (r : CfgRegister),
      (d.checkAndUpdate x b k r).sent = d.sent ∧
        ∀ j, j ≠ b → (d.checkAndUpdate x b k r).param j = d.param j := by
    intro d x b k r
    unfold CfgDevice.checkAndUpdate
    split
    · exact ⟨rfl, fun j hj => param_mirror_of_ne hj⟩
    · exact ⟨rfl, fun _ _ => rfl⟩
  induction xs generalizing d with
  | nil => exact ⟨rfl, fun _ _ _ => rfl⟩
  | cons x xs ih =>
    obtain ⟨hsent, hparam⟩ := ih (d := d.bcdOffsets x.1 x.2)
    obtain ⟨hsent₁, hparam₁⟩ := hone d x.1 .bcdXoffset .xoffset (.faOffset 0)
    obtain ⟨hsent₂, hparam₂⟩ := hone (d.checkAndUpdate x.1 .bcdXoffset .xoffset (.faOffset 0)) x.2
      .bcdYoffset .yoffset (.faOffset 1)
    refine ⟨hsent.trans (hsent₂.trans hsent₁), fun j hx hy => ?_⟩
    exact (hparam j hx hy).trans ((hparam₂ j hy).trans (hparam₁ j hx))

theorem SettledAt.reported {d : CfgDevice} {xs : List (Word × Word)} {i : CfgIndex} {v : Word}
    (hs : SettledAt g d i v) (hi : accepts g i v = true) : SettledAt g (d.reported xs) i v := by
  induction xs generalizing d with
  | nil => exact hs
  | cons x xs ih => exact ih (hs.bcdOffsets hi)

theorem follows_offset {i j : CfgIndex} (hj : j = .bcdXoffset ∨ j = .bcdYoffset)
    (h : follows i j = false) : i = j := by
  obtain rfl | rfl := hj
  all_goals
    unfold follows at h
    split at h
    all_goals simp_all

theorem portWords_reported {d : CfgDevice} {xs : List (Word × Word)} {i : CfgIndex} {v : Word}
    (hi : accepts g i v = true) : portWords g (d.reported xs) i = portWords g d i := by
  refine portWords_congr fun j hj => reported_frame.2 j ?_ ?_
  · rintro rfl
    obtain rfl := follows_offset (.inl rfl) hj
    cases hi
  · rintro rfl
    obtain rfl := follows_offset (.inr rfl) hj
    cases hi

/-- The settings of a call depend on the selected members, and not on the device. -/
theorem allTaken_of_same {u₁ : CfgWorld} (hgains : u₁.gains = u.gains) (hm : u₁.master = u.master)
    (hval : ∀ e ∈ es, flags.hits e.mask = true → q.val e.field = p.val e.field)
    (h : allTaken g u fd p flags es) : allTaken g u₁ fd q flags es ∧
      sentParams g u₁ fd q flags es = sentParams g u fd p flags es := by
  have hsetting : ∀ e ∈ es, flags.hits e.mask = true → settingOf u₁ q e = settingOf u p e :=
    fun e he hf => by simp only [settingOf, hgains, hval e he hf]
  have htaken : allTaken g u₁ fd q flags es := fun e he hf => by
    have h := h e he hf
    rw [taken] at h ⊢
    rwa [hsetting e he hf, hgains, hm, hval e he hf]
  refine ⟨htaken, ?_⟩
  rw [sentParams_of_allTaken h, sentParams_of_allTaken htaken]
  exact List.map_congr_left fun e he =>
    hsetting e (List.mem_filter.1 he).1 (List.mem_filter.1 he).2

/-- Settings that are made again, after reports of the DSC server. -/
theorem setAll_reported {d : CfgDevice} {ops : List (CfgIndex × Word)} {xs : List (Word × Word)}
    (h : Orderly g ops) :
    SameConfig ((d.setAll g ops).reported xs) (((d.setAll g ops).reported xs).setAll g ops) ∧
      ∃ words, ((d.setAll g ops).reported xs).sent = d.sent ++ words ∧
        (((d.setAll g ops).reported xs).setAll g ops).sent =
          ((d.setAll g ops).reported xs).sent ++ words := by
  have hsettled (op : CfgIndex × Word) (hop : op ∈ ops) :
      SettledAt g ((d.setAll g ops).reported xs) op.1 op.2 :=
    (settled_setAll h op hop).reported (h.accepted op hop)
  obtain ⟨hsame, hsent⟩ := setAll_again h hsettled
  refine ⟨hsame, _, ?_, hsent⟩
  rw [reported_frame.1, sent_setAll h]
  refine congrArg (d.sent ++ ·) (List.flatMap_congr fun op hop => ?_)
  exact (portWords_reported (h.accepted op hop)).symm

/-- A call is taken again when the selected members are as they were. -/
theorem CallTaken.again {u₁ : CfgWorld} (h : CallTaken g s u fd decimation p flags)
    (hgains : u₁.gains = u.gains) (hm : u₁.master = u.master)
    (hkept : ∀ f, Selects flags f → q.val f = p.val f)
    (hsw : q.val .switches = switchDirect → p.val .switches = switchDirect) :
    CallTaken g s u₁ fd decimation q flags ∧
      callSettings g u₁ fd decimation q flags = callSettings g u fd decimation p flags := by
  obtain ⟨htaken, hsent⟩ := allTaken_of_same hgains hm (fun e he hit => by
    obtain ⟨e', he', hmask, hfield⟩ : ∃ e' ∈ setMap 0, _ := exists_mem_setMap he
    exact hkept _ (.inl ⟨e', he', hmask ▸ hit, hfield⟩)) h.tables
  refine ⟨⟨htaken, h.settable, h.daemons.congr ?_ ?_ hsw⟩, ?_⟩
  · exact fun e he hit f hf => hkept f (.inr (.inl ⟨e, he, hit, hf⟩))
  · exact fun e he hit => hkept _ (.inr (.inr ⟨e, he, hit, rfl⟩))
  · simpa [callSettings, h.settable.1, h.settable.2] using hsent

theorem resolved_ne_direct (hd : resolved g p = switchDirect) : p.val .switches = switchDirect := by
  unfold resolved at hd
  split at hd
  · next h => exact h
  · exact hd

/-- What a call that succeeded has come to. -/
theorem SteadyRun.done {h : Handle} {r : ParamResult} {l' : Lib}
    (hrun : SteadyRun g s l u h p flags r l' u') (hr : r.1 = cspiOk) : h = .env ∧
      (CallDone g s u l.env.fd l.decimation p flags r ∧
        CallWorld g u l.env.fd l.decimation p flags u') ∧
      l'.env.fd = l.env.fd ∧ l'.decimation = l.decimation ∧ l'.env.mutex = false := by
  obtain ⟨tr, hruns, hs⟩ := hrun
  obtain rfl : h = .env := by
    by_contra hh
    exact hruns.of_wlp hs (wlp_setenvparam_handle hh) hr
  exact ⟨rfl, hruns.of_wlp hs wlp_setenvparam_steady⟩

/-- **A call that succeeded is repeatable if and only if** it left the values of the caller. -/
theorem repeatable_iff (g : Global) (s : Surroundings) (l l₁ : Lib) (u u₁ : CfgWorld) (h : Handle)
    (p p₁ : EnvParams) (flags : Bitmask) (hrun : SteadyRun g s l u h p flags (cspiOk, p₁) l₁ u₁) :
    Repeatable g s u h p flags p₁ l₁ u₁ ↔ Unaltered g s u p flags := by
  obtain ⟨rfl, ⟨hdone, xs, hu₁⟩, hfd, hdec, hm⟩ := hrun.done rfl
  refine ⟨fun hrep => (hdone.kept_iff rfl).1 hrep.kept, fun hsame => ?_⟩
  have hkept := (hdone.kept_iff rfl).2 hsame
  have hsw : p₁.val .switches = switchDirect → p.val .switches = switchDirect := by
    cases hit : flags.hits envSwitch with
    | false => exact fun hd => resolved_ne_direct ((hdone.switches rfl hit).symm.trans hd)
    | true =>
      have hsel : Selects flags .switches :=
        .inr (.inl ⟨_, List.mem_cons_self, hit, rfl⟩)
      exact fun hd => (hkept _ hsel).symm.trans hd
  refine ⟨hkept, exists_againRun hm, ?_⟩
  rintro r l₂ u₂ ⟨tr₂, hr₂, hs₂⟩
  have hgains : u₁.gains = u.gains := by rw [hu₁]
  have hmaster : u₁.master = u.master := by rw [hu₁]
  obtain ⟨htaken, hsettings⟩ := (hdone.ok.1 rfl).again hgains hmaster hkept hsw
  obtain ⟨⟨hdone₂, -⟩, -⟩ :=
    hr₂.of_wlp hs₂ (wlp_of_serves (fun _ _ _ _ hx => hx.1) wlp_setenvparam_steady)
  have hu₂ := hr₂.of_wlp hs₂ (wlp_of_serves unchangedServe_quietServe wlp_setenvparam)
  rw [hfd, hdec] at hdone₂ hu₂
  rw [if_pos rfl, hsettings] at hu₂
  have hdev : u₁.dev = (u.dev.setAll g
      (callSettings g u l.env.fd l.decimation p flags)).reported xs := by rw [hu₁]
  have horder : Orderly g (callSettings g u l.env.fd l.decimation p flags) := orderly_callSettings
  obtain ⟨hsame, hwords⟩ := setAll_reported horder (d := u.dev)
  rw [← hdev] at hsame hwords
  exact ⟨hdone₂.ok.2 htaken, hu₂ ▸ hsame, hu₂ ▸ hwords⟩

/-- Daemons that take everything and send it back. -/
def echoing : Surroundings := ⟨fun _ v => (0, some v), fun _ => 0⟩

theorem cfgHandler_steady (c : SysCall) (u : CfgWorld) (x : SysAns c) (u' : CfgWorld)
    (h : cfgHandler g c u = some (x, u')) : steadyServe g echoing c x u u' := by
  cases c with
  | getCfg | getfl | pllSetcmd =>
    obtain ⟨rfl, rfl⟩ := Prod.mk.inj (Option.some.inj h)
    exact ⟨rfl, rfl⟩
  | dscMessage m w =>
    refine ⟨?_, cfgHandler_serves _ u x u' h⟩
    exact (Prod.mk.inj (Option.some.inj h)).1.symm
  | hang | fault => exact x.elim
  | _ => exact cfgHandler_serves _ u x u' h

/-- The call of `fullCall_sets`. -/
theorem exists_steadyRun : ∃ p₁ l₁ u₁, SteadyRun brilliance echoing fullCall.lib listedStart .env
    fullCall.params envIlk (cspiOk, p₁) l₁ u₁ := by
  obtain ⟨⟨⟨⟨rc, p₁⟩, l₁⟩, u₁, tr⟩, he, hrc⟩ := Option.map_eq_some_iff.1 fullCall_sets
  obtain rfl : rc = cspiOk := hrc
  exact ⟨p₁, l₁, u₁, tr, Prog.exec_runs he, Prog.exec_served cfgHandler_steady he⟩

theorem repeatable_iff_ilk : ∃ p₁ l₁ u₁, SteadyRun brilliance echoing fullCall.lib listedStart .env
    fullCall.params envIlk (cspiOk, p₁) l₁ u₁ ∧
      (Repeatable brilliance echoing listedStart .env fullCall.params envIlk p₁ l₁ u₁ ↔
        Unaltered brilliance echoing listedStart fullCall.params envIlk) := by
  obtain ⟨p₁, l₁, u₁, hrun⟩ := exists_steadyRun
  exact ⟨p₁, l₁, u₁, hrun, repeatable_iff _ _ _ _ _ _ _ _ _ _ hrun⟩

/-- A call for the interlock group leaves the attenuation beside the gain limit of the caller. -/
theorem ilk_not_repeatable : ¬∀ (g : Global) (s : Surroundings) (l l₁ : Lib) (u u₁ : CfgWorld)
    (h : Handle) (p p₁ : EnvParams) (flags : Bitmask),
    SteadyRun g s l u h p flags (cspiOk, p₁) l₁ u₁ → Repeatable g s u h p flags p₁ l₁ u₁ := by
  intro hall
  obtain ⟨p₁, l₁, u₁, hrun⟩ := exists_steadyRun
  obtain ⟨-, ⟨hdone, -⟩, -⟩ := hrun.done rfl
  have hsame := (hdone.kept_iff rfl).1 (hall _ _ _ _ _ _ _ _ _ _ hrun).kept
  have hpacked := hsame.gainLimit (by decide)
  revert hpacked
  decide

end LiberaDaq.Kernel
