import LiberaDaq.Kernel.CfgDevice

/-!
# The groups of the configuration device

The parameters of the interlock and those of the post-mortem acquisition reach the FPGA as a group.
`encode` says what a register shows of a parameter, and `shown` reads it from the registers; a group
agrees when the registers show the encoding of what the device reports (`AgreesOn`).

A parameter outside a group leaves the group alone, a member changes the mirror, and the last member
makes the group agree (`setCfg_other`, `setCfg_member`, `setCfg_last`). A list of settings therefore
keeps the agreement of a group exactly when it gets to the last member, or when no member that it
sets shows (`agreesOn_setAll_iff`).
-/

namespace LiberaDaq.Kernel

open LiberaDaq.Cspi

/-! ## Groups -/

/-- The two groups. -/
inductive CfgGroup
  | ilk | pm
  deriving DecidableEq, Repr

/-- The group of a parameter. -/
def CfgGroup.of : CfgIndex → Option CfgGroup
  | .ilk _ => some .ilk
  | .pm _ => some .pm
  | _ => none

/-- The member that takes the group to the registers. -/
def CfgGroup.last : CfgGroup → CfgIndex
  | .ilk => .ilk .gainLimit
  | .pm => .pm .overflowDur

/-- What the registers show of a parameter of a group. -/
def encode (g : Global) : CfgIndex → Word → Word
  | .ilk .overflowLimit, w | .pm .overflowLimit, w => scaleKadc g w
  | .ilk .gainLimit, w => w &&& 0x0000ffff
  | .pm .mode, w => w &&& 3
  | _, w => w

/-- The parameter of a group that the registers show. -/
def CfgDevice.shown (d : CfgDevice) : CfgIndex → Word
  | .ilk .mode => d.reg .ilkControl
  | .ilk .xlow => d.reg .ilkXlow
  | .ilk .xhigh => d.reg .ilkXhigh
  | .ilk .ylow => d.reg .ilkYlow
  | .ilk .yhigh => d.reg .ilkYhigh
  | .ilk .overflowLimit => d.reg .dscIlkOverflowLimit
  | .ilk .overflowDur => d.reg .dscIlkOverflowDur
  | .ilk .gainLimit => d.reg .dscIlkGainLimit
  | .pm .mode => (d.reg .tTrigDelay >>> 14) &&& 3
  | .pm .minXLimit => d.reg .pmXlow
  | .pm .maxXLimit => d.reg .pmXhigh
  | .pm .minYLimit => d.reg .pmYlow
  | .pm .maxYLimit => d.reg .pmYhigh
  | .pm .overflowLimit => d.reg .dscPmOverflowLimit
  | .pm .overflowDur => d.reg .dscPmOverflowDur
  | _ => 0

/-- The registers show the encoding of the parameters of the group that the device reports. -/
def AgreesOn (g : Global) (grp : CfgGroup) (d : CfgDevice) : Prop :=
  ∀ idx, CfgGroup.of idx = some grp → (d.getCfg g idx).map (encode g idx) = some (d.shown idx)

/-- The registers agree with what the device reports of both groups. -/
def Agrees (g : Global) (d : CfgDevice) : Prop := ∀ grp, AgreesOn g grp d

variable {g : Global} {grp : CfgGroup} {d d' : CfgDevice} {idx j : CfgIndex} {val : Word}

/-- The device reports the members of a group from the mirror. -/
theorem getCfg_member (hj : CfgGroup.of j = some grp) : d.getCfg g j = some (d.param j) := by
  cases j with
  | ilk m => rfl
  | pm m => rfl
  | _ => cases hj

theorem agreesOn_iff :
    AgreesOn g grp d ↔ ∀ j, CfgGroup.of j = some grp → encode g j (d.param j) = d.shown j := by
  refine forall₂_congr fun j hj => ?_
  rw [getCfg_member hj, Option.map_some, Option.some.injEq]

/-! ## One setting -/

/-- Whether the device takes a value, which does not depend on what it holds. -/
def accepts (g : Global) : CfgIndex → Word → Bool
  | .ilk .overflowLimit, val | .pm .overflowLimit, val => val ≤ maxLimit g
  | .ilk .overflowDur, val => val ≤ g.ilkdur ∧ val ≤ maxdur
  | .pm .overflowDur, val => val ≤ g.pmdur ∧ val ≤ maxdur
  | .mcpll, _ | .scpll, _ | .featureCustomer, _ | .featureItech, _ | .dfa, _ | .decDdc, _ => false
  | .bcdXoffset, _ | .bcdYoffset, _ | .maxAdc, _ | .averageSum, _ => false
  | _, _ => true

/-- What the mirror holds of a value that a member of a group is set to. -/
def mirrored (g : Global) : CfgIndex → Word → Word
  | .ilk .overflowLimit, val | .pm .overflowLimit, val => overflowEntry g val
  | _, val => val

theorem isSome_ite {α : Type} {P : Prop} [Decidable P] {a : α} :
    (if P then some a else none).isSome = decide P := by
  split <;> simp [*]

theorem setCfg_isSome : (d.setCfg g idx val).isSome = accepts g idx val := by
  cases idx with
  | ilk m => cases m <;> first | rfl | exact isSome_ite
  | pm m => cases m <;> first | rfl | exact isSome_ite
  | sr m => cases m <;> rfl
  | sp m => cases m <;> rfl
  | notch1 i | notch2 i | polyphaseFir i =>
    simp only [CfgDevice.setCfg, CfgDevice.setSpecific, CfgDevice.setCoeff, accepts]
    split <;> rfl
  | _ => rfl

/-! ## Bits of the trigger delay -/

/-- Words that are equal in their two lowest bits. -/
theorem and_three_congr {x y : Word} (h0 : x.getLsbD 0 = y.getLsbD 0)
    (h1 : x.getLsbD 1 = y.getLsbD 1) : x &&& 3 = y &&& 3 := by
  have h3 : ∀ i, (3 : Word).getLsbD (i + 2) = false := fun i => by
    refine Nat.testBit_lt_two_pow (show 3 < 2 ^ (i + 2) from ?_)
    have := Nat.one_le_two_pow (n := i)
    rw [Nat.pow_add]
    omega
  refine BitVec.eq_of_getLsbD_eq fun i _ => ?_
  rw [BitVec.getLsbD_and, BitVec.getLsbD_and]
  rcases i with _ | _ | i
  · rw [h0]
  · rw [h1]
  · rw [h3, Bool.and_false, Bool.and_false]

/-- The trigger delay has other bits than the post-mortem mode in the register they share. -/
theorem trigdelay_keeps_mode (t v : Word) :
    (((t &&& 0xc000ffff) ||| ((v &&& 0x3fff) <<< 16)) >>> 14) &&& 3 = (t >>> 14) &&& 3 :=
  and_three_congr (by simp) (by simp)

theorem mode_shown (t v : Word) :
    (((t &&& 0xFFFF3FFF) ||| ((v &&& 3) <<< 14)) >>> 14) &&& 3 = v &&& 3 :=
  and_three_congr (by simp) (by simp)

/-! ## What a setting does to a group -/

/-- The parameters of the group and what the registers show of them are the same. -/
def SameGroup (grp : CfgGroup) (d d' : CfgDevice) : Prop :=
  ∀ j, CfgGroup.of j = some grp → d'.param j = d.param j ∧ d'.shown j = d.shown j

theorem SameGroup.refl (d : CfgDevice) : SameGroup grp d d := fun _ _ => ⟨rfl, rfl⟩

theorem SameGroup.trans {d'' : CfgDevice} (h : SameGroup grp d d') (h' : SameGroup grp d' d'') :
    SameGroup grp d d'' := fun j hj =>
  ⟨(h' j hj).1.trans (h j hj).1, (h' j hj).2.trans (h j hj).2⟩

/-- The agreement of a group depends on the group alone. -/
theorem SameGroup.agreesOn_iff (h : SameGroup grp d d') : AgreesOn g grp d' ↔ AgreesOn g grp d := by
  rw [Kernel.agreesOn_iff, Kernel.agreesOn_iff]
  refine forall₂_congr fun j hj => ?_
  rw [(h j hj).1, (h j hj).2]

theorem param_mirror_of_ne (hj : j ≠ idx) : (d.mirror idx val).param j = d.param j :=
  Function.update_of_ne hj _ _

theorem sameGroup_mirror (hi : CfgGroup.of idx ≠ some grp) : SameGroup grp d (d.mirror idx val) :=
  fun _ hj => ⟨param_mirror_of_ne (fun h => hi (h ▸ hj)), rfl⟩

/-- The group whose members a register shows. -/
def CfgGroup.ofRegister : CfgRegister → Option CfgGroup
  | .ilkControl | .ilkXlow | .ilkXhigh | .ilkYlow | .ilkYhigh | .dscIlkGainLimit
  | .dscIlkOverflowLimit | .dscIlkOverflowDur => some .ilk
  | .pmXlow | .pmXhigh | .pmYlow | .pmYhigh | .dscPmOverflowLimit | .dscPmOverflowDur
  | .tTrigDelay => some .pm
  | _ => none

theorem reg_writel_of_ne {r r' : CfgRegister} (h : r' ≠ r) : (d.writel val r).reg r' = d.reg r' :=
  Function.update_of_ne h _ _

@[simp] theorem reg_writel_self {r : CfgRegister} : (d.writel val r).reg r = val :=
  Function.update_self _ _ _

theorem sameGroup_writel {r : CfgRegister} (hr : CfgGroup.ofRegister r ≠ some grp) :
    SameGroup grp d (d.writel val r) := by
  have hreg : ∀ r', CfgGroup.ofRegister r' = some grp → (d.writel val r).reg r' = d.reg r' :=
    fun r' hr' => reg_writel_of_ne fun h => hr (h ▸ hr')
  refine fun j hj => ⟨rfl, ?_⟩
  cases j with
  | ilk m =>
    obtain rfl : CfgGroup.ilk = grp := Option.some.inj hj
    cases m <;> exact hreg _ rfl
  | pm m =>
    obtain rfl : CfgGroup.pm = grp := Option.some.inj hj
    cases m with
    | mode => exact congrArg (fun t : Word => (t >>> 14) &&& 3) (hreg _ rfl)
    | _ => exact hreg _ rfl
  | _ => cases hj

/-- As `sameGroup_writel`, after steps that left the group alone. -/
theorem SameGroup.writel {r : CfgRegister} (h : SameGroup grp d d')
    (hr : CfgGroup.ofRegister r ≠ some grp) : SameGroup grp d (d'.writel val r) :=
  h.trans (sameGroup_writel hr)

theorem sameGroup_commitIlk : SameGroup .pm d (d.commitIlk g) := by
  unfold CfgDevice.commitIlk
  repeat refine SameGroup.writel ?_ nofun
  exact .refl d

theorem sameGroup_commitPm : SameGroup .ilk d (d.commitPm g) := by
  unfold CfgDevice.commitPm
  repeat refine SameGroup.writel ?_ nofun
  exact .refl d

theorem sameGroup_writeCoeffs {p : CfgPort} {vals : List Word} :
    SameGroup grp d (d.writeCoeffs p vals) := by
  have hpush : ∀ (d : CfgDevice), SameGroup grp d (vals.foldl (fun d v => d.push v p) d) := by
    induction vals with
    | nil => exact fun d => .refl d
    | cons v vals ih => exact fun d => SameGroup.trans (fun _ _ => ⟨rfl, rfl⟩) (ih (d.push v p))
  exact SameGroup.trans (fun _ _ => ⟨rfl, rfl⟩) (hpush (d.push 1 .faFifoReset))

theorem sameGroup_setTrigdelay : SameGroup grp d (d.setTrigdelay val) := by
  refine fun j hj => ⟨param_mirror_of_ne (fun h => by subst h; cases hj), ?_⟩
  cases j with
  | ilk m => cases m <;> exact reg_writel_of_ne nofun
  | pm m =>
    cases m with
    | mode =>
      simp only [CfgDevice.setTrigdelay, CfgDevice.shown, reg_writel_self]
      exact trigdelay_keeps_mode _ _
    | _ => exact reg_writel_of_ne nofun
  | _ => cases hj

theorem sameGroup_setAverageWindow : SameGroup grp d (d.setAverageWindow val) := by
  have hr : ∀ r, r = .faEnable ∨ r = .faAveWin → CfgGroup.ofRegister r ≠ some grp := by
    rintro _ (rfl | rfl) <;> exact nofun
  have h : SameGroup grp d (d.mirror (.sr .averageWindow) val) := sameGroup_mirror nofun
  simp only [CfgDevice.setAverageWindow]
  split
  · exact ((h.writel (hr _ (.inl rfl))).writel (hr _ (.inr rfl))).writel (hr _ (.inl rfl))
  · exact h.writel (hr _ (.inr rfl))

theorem sameGroup_setExtswitch : SameGroup grp d (d.setExtswitch val) :=
  (sameGroup_writel (by nofun)).trans (sameGroup_mirror (by nofun))

/-- The two overflow limits are mirrored, if they are in range. -/
theorem setOverflowLimit_eq (h : d.setOverflowLimit g idx val = some d') :
    d' = d.mirror idx (overflowEntry g val) := by
  unfold CfgDevice.setOverflowLimit at h
  split at h
  · exact (Option.some.inj h).symm
  · cases h

theorem setCoeff_other (h : d.setCoeff g idx val = some d') : SameGroup grp d d' := by
  cases idx with
  | notch1 i | notch2 i | polyphaseFir i =>
    simp only [CfgDevice.setCoeff] at h
    split at h
    all_goals
      obtain rfl := Option.some.inj h
    · exact (sameGroup_mirror (by nofun)).trans sameGroup_writeCoeffs
    · exact sameGroup_mirror (by nofun)
  | _ => cases h

/-- **A parameter outside a group leaves the group alone.** -/
theorem setCfg_other (h : d.setCfg g idx val = some d') (hi : CfgGroup.of idx ≠ some grp) :
    SameGroup grp d d' := by
  cases idx with
  | ilk m =>
    obtain rfl : grp = .pm := by cases grp <;> first | rfl | exact absurd rfl hi
    cases m with
    | overflowLimit => exact setOverflowLimit_eq h ▸ sameGroup_mirror hi
    | overflowDur =>
      obtain ⟨-, h⟩ := Option.ite_none_right_eq_some.1 h
      exact Option.some.inj h ▸ sameGroup_mirror hi
    | gainLimit => exact Option.some.inj h ▸ (sameGroup_mirror hi).trans sameGroup_commitIlk
    | _ => exact Option.some.inj h ▸ sameGroup_mirror hi
  | pm m =>
    obtain rfl : grp = .ilk := by cases grp <;> first | rfl | exact absurd rfl hi
    cases m with
    | overflowLimit => exact setOverflowLimit_eq h ▸ sameGroup_mirror hi
    | overflowDur =>
      obtain ⟨-, h⟩ := Option.ite_none_right_eq_some.1 h
      have hc : SameGroup .ilk d ((d.mirror (.pm .overflowDur) val).commitPm g) :=
        (sameGroup_mirror hi).trans sameGroup_commitPm
      exact Option.some.inj h ▸ hc.trans fun _ _ => ⟨rfl, rfl⟩
    | _ => exact Option.some.inj h ▸ sameGroup_mirror hi
  | xoffset | yoffset | qoffset | kx | ky | swdelay =>
    exact Option.some.inj h ▸ (sameGroup_mirror hi).writel (by rintro ⟨⟩)
  | sr m =>
    cases m with
    | cspiEnable => exact Option.some.inj h ▸ sameGroup_mirror hi
    | averageWindow => exact Option.some.inj h ▸ sameGroup_setAverageWindow
    | _ => exact Option.some.inj h ▸ (sameGroup_mirror hi).writel (by rintro ⟨⟩)
  | sp m => cases m <;> exact Option.some.inj h ▸ sameGroup_mirror hi
  | trigmode | ilkstatus | pmoffset | pmdec => exact Option.some.inj h ▸ sameGroup_mirror hi
  | extswitch => exact Option.some.inj h ▸ sameGroup_setExtswitch
  | ddcMaflength | ddcMafdelay => exact Option.some.inj h ▸ sameGroup_writel (by rintro ⟨⟩)
  | trigdelay => exact Option.some.inj h ▸ sameGroup_setTrigdelay
  | notch1 i | notch2 i | polyphaseFir i =>
    simp only [CfgDevice.setCfg, CfgDevice.setSpecific] at h
    exact setCoeff_other h
  | _ => cases h

/-- **A member of a group before the last changes the mirror alone.** -/
theorem setCfg_member (h : d.setCfg g idx val = some d') (hi : CfgGroup.of idx = some grp)
    (hl : idx ≠ grp.last) : d' = d.mirror idx (mirrored g idx val) := by
  cases idx with
  | ilk m =>
    obtain rfl : CfgGroup.ilk = grp := Option.some.inj hi
    cases m with
    | overflowLimit => exact setOverflowLimit_eq h
    | overflowDur =>
      obtain ⟨-, h⟩ := Option.ite_none_right_eq_some.1 h
      exact (Option.some.inj h).symm
    | gainLimit => exact absurd rfl hl
    | _ => exact (Option.some.inj h).symm
  | pm m =>
    obtain rfl : CfgGroup.pm = grp := Option.some.inj hi
    cases m with
    | overflowLimit => exact setOverflowLimit_eq h
    | overflowDur => exact absurd rfl hl
    | _ => exact (Option.some.inj h).symm
  | _ => cases hi

theorem agreesOn_commitIlk : AgreesOn g .ilk (d.commitIlk g) := by
  refine agreesOn_iff.2 fun j hj => ?_
  cases j with
  | ilk m => cases m <;> rfl
  | _ => cases hj

theorem agreesOn_commitPm : AgreesOn g .pm (d.commitPm g) := by
  refine agreesOn_iff.2 fun j hj => ?_
  cases j with
  | pm m =>
    cases m with
    | mode => exact (mode_shown _ _).symm
    | _ => rfl
  | _ => cases hj

/-- **The last member takes the group to the registers.** -/
theorem setCfg_last (h : d.setCfg g grp.last val = some d') : AgreesOn g grp d' := by
  cases grp with
  | ilk =>
    have h : (d.mirror (.ilk .gainLimit) val).commitIlk g = d' := Option.some.inj h
    exact h ▸ agreesOn_commitIlk
  | pm =>
    obtain ⟨-, h⟩ := Option.ite_none_right_eq_some.1 h
    rw [← Option.some.inj h]
    exact agreesOn_commitPm (d := d.mirror (.pm .overflowDur) val)

/-! ## Lists of settings -/

/-- The device after a list of settings. -/
def CfgDevice.setAll (g : Global) (d : CfgDevice) (ops : List (CfgIndex × Word)) : CfgDevice :=
  ops.foldl (fun d op => (d.setCfg g op.1 op.2).getD d) d

variable {ops : List (CfgIndex × Word)}

theorem setAll_other (h : ∀ op ∈ ops, CfgGroup.of op.1 ≠ some grp) :
    SameGroup grp d (d.setAll g ops) := by
  induction ops generalizing d with
  | nil => exact .refl d
  | cons op ops ih =>
    have hop : SameGroup grp d ((d.setCfg g op.1 op.2).getD d) := by
      cases hs : d.setCfg g op.1 op.2 with
      | none => exact .refl d
      | some d' => exact setCfg_other hs (h op List.mem_cons_self)
    exact hop.trans (ih fun op' hop' => h op' (List.mem_cons_of_mem _ hop'))

/-- A setting that is accepted before the last member of the group. -/
theorem setAll_one (hok : accepts g idx val) (hl : idx ≠ grp.last) (hj : CfgGroup.of j = some grp) :
    ((d.setCfg g idx val).getD d).shown j = d.shown j ∧
      ((d.setCfg g idx val).getD d).param j =
        if j = idx then mirrored g idx val else d.param j := by
  obtain ⟨d', hs⟩ := Option.isSome_iff_exists.1 (setCfg_isSome (d := d).trans hok)
  rw [hs, Option.getD_some]
  by_cases hi : CfgGroup.of idx = some grp
  · rw [setCfg_member hs hi hl]
    refine ⟨rfl, ?_⟩
    split
    · next h => exact h ▸ Function.update_self _ _ _
    · next h => exact param_mirror_of_ne h
  · have hne : j ≠ idx := fun h => hi (h ▸ hj)
    rw [if_neg hne]
    exact (setCfg_other hs hi j hj).symm

/-- Settings that do not get to the last member of the group change the mirror alone. -/
theorem setAll_members (hok : ∀ op ∈ ops, accepts g op.1 op.2)
    (hl : ∀ op ∈ ops, op.1 ≠ grp.last) (hn : (ops.map Prod.fst).Nodup)
    (hj : CfgGroup.of j = some grp) : (d.setAll g ops).shown j = d.shown j ∧
      (∀ v, (j, v) ∈ ops → (d.setAll g ops).param j = mirrored g j v) ∧
      (j ∉ ops.map Prod.fst → (d.setAll g ops).param j = d.param j) := by
  induction ops generalizing d with
  | nil => simp [CfgDevice.setAll]
  | cons op ops ih =>
    obtain ⟨hok₁, hok⟩ := List.forall_mem_cons.1 hok
    obtain ⟨hl₁, hl⟩ := List.forall_mem_cons.1 hl
    obtain ⟨hn₁, hn⟩ := List.nodup_cons.1 hn
    obtain ⟨hs, hp⟩ := setAll_one (d := d) hok₁ hl₁ hj
    obtain ⟨hs', hmem, hnot⟩ := ih (d := (d.setCfg g op.1 op.2).getD d) hok hl hn
    refine ⟨hs'.trans hs, fun v hv => ?_, fun hj' => ?_⟩
    · rcases List.mem_cons.1 hv with rfl | hv
      · exact (hnot hn₁).trans (hp.trans (if_pos rfl))
      · exact hmem v hv
    · rw [List.map_cons, List.mem_cons, not_or] at hj'
      exact (hnot hj'.2).trans (hp.trans (if_neg hj'.1))

/-- The settings get to the last member of the group, or the registers show already what they set
the members to. -/
def Carried (g : Global) (grp : CfgGroup) (d : CfgDevice) (ops : List (CfgIndex × Word)) : Prop :=
  (∃ v, (grp.last, v) ∈ ops) ∨ ∀ op ∈ ops, CfgGroup.of op.1 = some grp →
    encode g op.1 (mirrored g op.1 op.2) = d.shown op.1

/-- Nothing of the group comes after its last member. -/
abbrev EndsGroup (grp : CfgGroup) (idxs : List CfgIndex) : Prop :=
  idxs.Pairwise fun i j => i = grp.last → CfgGroup.of j ≠ some grp

/-- A list of settings that gets to the last member makes the group agree. -/
theorem agreesOn_setAll_of_last (hv : (grp.last, val) ∈ ops) (hok : accepts g grp.last val)
    (he : EndsGroup grp (ops.map Prod.fst)) : AgreesOn g grp (d.setAll g ops) := by
  obtain ⟨a, b, rfl⟩ := List.append_of_mem hv
  obtain ⟨d', hs⟩ := Option.isSome_iff_exists.1 ((setCfg_isSome (d := d.setAll g a)).trans hok)
  have hb : ∀ op ∈ b, CfgGroup.of op.1 ≠ some grp := fun op hop => by
    rw [List.map_append, List.map_cons, EndsGroup, List.pairwise_append, List.pairwise_cons] at he
    exact he.2.1.1 op.1 (List.mem_map_of_mem hop) rfl
  have hset : d.setAll g (a ++ (grp.last, val) :: b) = d'.setAll g b := by
    simp only [CfgDevice.setAll, List.foldl_append, List.foldl_cons]
    exact congrArg (fun d₁ => CfgDevice.setAll g d₁ b) (by rw [← CfgDevice.setAll, hs]; rfl)
  rw [hset, (setAll_other hb).agreesOn_iff]
  exact setCfg_last hs

/-- **Settings keep the agreement of a group exactly when the group is carried.** -/
theorem agreesOn_setAll_iff (hd : AgreesOn g grp d) (hok : ∀ op ∈ ops, accepts g op.1 op.2)
    (hn : (ops.map Prod.fst).Nodup) (he : EndsGroup grp (ops.map Prod.fst)) :
    AgreesOn g grp (d.setAll g ops) ↔ Carried g grp d ops := by
  by_cases hl : ∃ v, (grp.last, v) ∈ ops
  · refine iff_of_true ?_ (.inl hl)
    obtain ⟨v, hv⟩ := hl
    exact agreesOn_setAll_of_last hv (hok _ hv) he
  · have hl' : ∀ op ∈ ops, op.1 ≠ grp.last := fun op hop h => hl ⟨op.2, h ▸ hop⟩
    have hset := fun j hj => setAll_members (d := d) (j := j) hok hl' hn hj
    rw [agreesOn_iff] at hd ⊢
    refine ⟨fun h => .inr fun op hop hg => ?_, fun h j hj => ?_⟩
    · obtain ⟨hs, hmem, -⟩ := hset op.1 hg
      rw [← hs, ← h op.1 hg, hmem op.2 hop]
    · obtain ⟨hs, hmem, hnot⟩ := hset j hj
      rw [hs]
      by_cases hj' : j ∈ ops.map Prod.fst
      · obtain ⟨op, hop, rfl⟩ := List.mem_map.1 hj'
        rw [hmem op.2 hop]
        exact (h.resolve_left hl) op hop hj
      · rw [hnot hj']
        exact hd j hj

/-! ## The mirror at the other parameters -/

@[simp] theorem param_writel {r : CfgRegister} : (d.writel val r).param = d.param := rfl

@[simp] theorem param_writeCoeffs {p : CfgPort} {vals : List Word} :
    (d.writeCoeffs p vals).param = d.param := by
  have hpush : ∀ (d : CfgDevice), (vals.foldl (fun d v => d.push v p) d).param = d.param := by
    induction vals with
    | nil => exact fun _ => rfl
    | cons v vals ih => exact fun d => ih (d.push v p)
  exact hpush _

/-- A setting changes the mirror at its own parameter alone. -/
theorem param_setCfg_of_ne (h : d.setCfg g idx val = some d') (hj : j ≠ idx) :
    d'.param j = d.param j := by
  have hm : ∀ v, (d.mirror idx v).param j = d.param j := fun v => param_mirror_of_ne hj
  cases idx with
  | ilk m =>
    cases m with
    | overflowLimit => exact setOverflowLimit_eq h ▸ hm _
    | overflowDur =>
      obtain ⟨-, h⟩ := Option.ite_none_right_eq_some.1 h
      exact Option.some.inj h ▸ hm _
    | gainLimit =>
      have h : (d.mirror (.ilk .gainLimit) val).commitIlk g = d' := Option.some.inj h
      exact h ▸ hm _
    | _ => exact Option.some.inj h ▸ hm _
  | pm m =>
    cases m with
    | overflowLimit => exact setOverflowLimit_eq h ▸ hm _
    | overflowDur =>
      obtain ⟨-, h⟩ := Option.ite_none_right_eq_some.1 h
      exact Option.some.inj h ▸ hm _
    | _ => exact Option.some.inj h ▸ hm _
  | sr m =>
    cases m with
    | averageWindow =>
      rw [← Option.some.inj h, ← hm val]
      simp only [CfgDevice.setAverageWindow]
      split <;> rfl
    | _ => exact Option.some.inj h ▸ hm _
  | sp m => cases m <;> exact Option.some.inj h ▸ hm _
  | ddcMaflength | ddcMafdelay => exact Option.some.inj h ▸ rfl
  | notch1 i | notch2 i | polyphaseFir i =>
    simp only [CfgDevice.setCfg, CfgDevice.setSpecific, CfgDevice.setCoeff] at h
    split at h
    all_goals
      obtain rfl := Option.some.inj h
    · exact (congrFun param_writeCoeffs j).trans (hm val)
    · exact hm val
  | mcpll | scpll | featureCustomer | featureItech | dfa | decDdc | bcdXoffset | bcdYoffset
  | maxAdc | averageSum => cases h
  | _ => exact Option.some.inj h ▸ hm _

end LiberaDaq.Kernel
