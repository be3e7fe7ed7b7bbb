import LiberaDaq.Cspi.Confinement
import LiberaDaq.Cspi.Frames

/-!
# What a read stores

`cspi_read` and `cspi_get` store atoms at an address of the client. `Mode.written` is how many of
which kind in each mode, and `only_read` says that no read stores more, whatever the system answers.
-/

namespace LiberaDaq.Cspi

open LiberaDaq.Interaction Prog

/-- The atoms that a read in a mode may store when it is asked for a number of them, and their kind.
Removing spikes and the continuous wave begin with an atom that they do not count; a single pass
makes one of all. -/
def Mode.written : Mode → ℕ → AtomKind × ℕ
  | .unknown, n | .pm, n => (.dd, n)
  | .dd, n => (.dd, max 1 n)
  | .sa, _ => (.sa, 1)
  | .adc, n => (.adc, n)
  | .adcCw, n => (.adcCw, max 1 n)
  | .adcSp, _ | .adcSpRot, _ => (.adcSp, 1)
  | .average, _ => (.average, 1)

/-- What the call stores at an address of the client are at most so many atoms of a kind, at this
address. -/
def StoresIn (dest : Buffer) (x : AtomKind × ℕ) : SysCall → Prop
  | .read _ (.client b) kind n => b = dest ∧ kind = x.1 ∧ n.toNat ≤ x.2 * kind.size
  | .store b atoms => b = dest ∧ atoms.length ≤ x.2 ∧ ∀ a ∈ atoms, a.kind = x.1
  | _ => True

/-- What an operator of the mode leaves of some atoms. -/
def Operator.FitsIn (op : Operator) (x : AtomKind × ℕ) (n : ℕ) : Prop :=
  op.kind = x.1 ∧ ∀ k ≤ n, op.extent k ≤ x.2

variable {l l' : Lib} {tf : Transform} {dest : Buffer} {count : Word} {c : Connection} {f : File}
  {p : ℕ} {x : AtomKind × ℕ} {op : Option Operator}

theorem nbytes_le (count : Word) (kind : AtomKind) :
    (nbytes count kind).toNat ≤ count.toNat * kind.size := by
  rw [nbytes, BitVec.toNat_mul, BitVec.toNat_ofNat]
  exact (Nat.mod_le _ _).trans (Nat.mul_le_mul_left _ (Nat.mod_le _ _))

theorem only_initop : Only (StoresIn dest x) l.customInitop :=
  only_customInitop trivial trivial (fun _ _ => only_customGetenvparam (fun _ => trivial)
    (fun _ _ => trivial) trivial trivial fun _ _ _ _ => trivial) fun _ _ => trivial

theorem only_applyOp_of_fits {op : Operator} {n k : ℕ} (h : op.FitsIn x n) (hk : k ≤ n)
    (cache : Cache) (atom : ℕ → Atom) :
    Only (StoresIn dest x) (applyOp tf op cache dest atom k) := by
  refine only_applyOp trivial fun members => ⟨rfl, ?_, fun a ha => ?_⟩
  · rw [Operator.atoms, List.length_map, List.length_range]
    exact h.2 k hk
  · obtain ⟨i, -, rfl⟩ := List.mem_map.1 ha
    exact h.1

/-- The whole atoms of what was received are no more than were asked for. -/
theorem received_le {kind : AtomKind} (r : Received (nbytes count kind).toNat) :
    r.bytes / kind.size ≤ count.toNat := by
  have hpos : 0 < kind.size := by cases kind <;> decide
  exact Nat.div_le_of_le_mul ((r.le.trans (nbytes_le count kind)).trans_eq (Nat.mul_comm ..))

theorem only_readDd (hkind : x.1 = .dd) (hcount : count.toNat ≤ x.2)
    (hop : ∀ o, op = some o → o.FitsIn x count.toNat) :
    Only (StoresIn dest x) (l.readDd tf p c f dest count op) := by
  have hread : StoresIn dest x (.read f (.client dest) .dd (nbytes count .dd)) :=
    ⟨rfl, hkind.symm, (nbytes_le count .dd).trans (Nat.mul_le_mul_right _ hcount)⟩
  refine only_seq (only_sys hread) fun r => ?_
  cases r with
  | none => exact only_pure _
  | some r =>
    refine only_seq (only_ite (only_sys trivial) (only_sys trivial)) fun ts => ?_
    cases ts with
    | none => exact only_pure _
    | some ts =>
      cases op with
      | none => exact only_pure _
      | some op =>
        refine only_seq only_initop fun r' => only_ite (only_pure _) ?_
        exact only_seq (only_applyOp_of_fits (hop op rfl) (received_le r) _ _) fun _ => only_pure _

theorem only_readAdc (hclient : c.mode = .adc → x.1 = .adc ∧ count.toNat ≤ x.2)
    (hop : ∀ o, op = some o → o.FitsIn x count.toNat) :
    Only (StoresIn dest x) (l.readAdc tf c f dest count op) := by
  have hbuffer : (adcBuffer c dest).Confined (StoresIn dest x) fun place =>
      ∀ d, place = some d → d = .own ∨ d = .client dest ∧ c.mode = .adc := by
    unfold adcBuffer
    split
    · next hmode => exact fun d hd => .inr ⟨(Option.some.inj hd).symm, hmode⟩
    · refine ⟨trivial, fun ok d hd => ?_⟩
      cases ok with
      | false => cases hd
      | true => exact .inl (Option.some.inj hd).symm
  refine confined_bind.2 (confined_mono hbuffer fun place hplace => ?_)
  cases place with
  | none => exact only_pure _
  | some place =>
    have hread : StoresIn dest x (.read f place .adc (nbytes count .adc)) := by
      rcases hplace place rfl with rfl | ⟨rfl, hmode⟩
      · trivial
      · obtain ⟨hkind, hcount⟩ := hclient hmode
        exact ⟨rfl, hkind.symm, (nbytes_le count .adc).trans (Nat.mul_le_mul_right _ hcount)⟩
    refine only_seq (only_sys hread) fun r => ?_
    cases r with
    | none => exact only_pure _
    | some r =>
      cases op with
      | none => exact only_pure _
      | some op =>
        refine only_seq only_initop fun r' => only_ite (only_pure _) ?_
        exact only_seq (only_applyOp_of_fits (hop op rfl) (received_le r) _ _) fun _ => only_pure _

theorem only_readAvg (hx : x = (.average, 1)) :
    Only (StoresIn dest x) (l.readAvg p c f dest) := by
  have hseek : ∀ h o s, Only (StoresIn dest x) (l.seek h o s) := fun h o s => by
    refine only_seq (only_isHcon trivial) fun r => ?_
    cases r with
    | none => exact only_pure _
    | some r =>
      refine only_seq (only_onFile fun f => only_ite (only_pure _) ?_) fun _ => only_pure _
      exact only_seq (only_sys trivial) fun _ => only_pure _
  have hgetenv : ∀ (l : Lib) ep, Only (StoresIn dest x) (l.getenvparam .env ep envAverageSum) := by
    intro l ep
    refine only_seq (only_pure _) fun _ => only_ite (only_seq (only_lock trivial) fun l => ?_)
      (only_pure _)
    exact only_seq (only_customGetenvparam (fun _ => trivial) (fun _ _ => trivial) trivial trivial
      fun _ _ _ _ => trivial) fun _ => only_pure _
  refine only_seq (hseek _ _ _) fun r => only_ite (only_pure _) ?_
  refine only_seq (only_sys trivial) fun r => ?_
  cases r with
  | none => exact only_pure _
  | some r =>
    refine only_seq (only_sys trivial) fun ts => ?_
    cases ts with
    | none => exact only_pure _
    | some ts =>
      refine only_seq (only_sys trivial) fun params => only_seq (hgetenv _ _) fun r => ?_
      refine only_ite (only_pure _) (only_seq (only_sys ?_) fun _ => only_pure _)
      rw [hx]
      exact ⟨rfl, le_rfl, by simp⟩

/-- The operators of a mode. -/
def Operator.Of : Operator → Mode → Prop
  | .transformDd, mode => mode = .dd ∨ mode = .pm
  | .transformDdRemoveSpikes, mode => mode = .dd
  | .transformAdcCw, mode => mode = .adcCw
  | .transformAdcSp, mode => mode = .adcSp
  | .transformAdcSpRot, mode => mode = .adcSpRot

theorem customGetdefaultop_of (mode : Mode) : (l.customGetdefaultop mode).Ensures fun r =>
    l.SameTable r.2 ∧ ∀ o, r.1 = some o → o.Of mode := by
  cases mode with
  | dd =>
    refine confined_bind.2 (confined_mono customInitop_ensures fun r h => ⟨h, fun o ho => ?_⟩)
    obtain rfl := Option.some.inj ho
    split
    · rfl
    · exact .inl rfl
  | pm => exact ⟨.refl l, fun o ho => Option.some.inj ho ▸ .inr rfl⟩
  | adcCw | adcSp | adcSpRot => exact ⟨.refl l, fun o ho => Option.some.inj ho ▸ rfl⟩
  | unknown | sa | adc | average => exact ⟨.refl l, fun o ho => by cases ho⟩

/-- An operator of the mode leaves no more than a read in this mode may store. -/
theorem Operator.Of.fits {op : Operator} {mode : Mode} (h : op.Of mode) (n : ℕ) :
    op.FitsIn (mode.written n) n := by
  cases op with
  | transformDd =>
    obtain rfl | rfl := h
    · exact ⟨rfl, fun k hk => hk.trans (Nat.le_max_right ..)⟩
    · exact ⟨rfl, fun k hk => hk⟩
  | transformDdRemoveSpikes | transformAdcCw =>
    obtain rfl : mode = _ := h
    exact ⟨rfl, fun k hk => max_le_max_left 1 hk⟩
  | transformAdcSp | transformAdcSpRot =>
    obtain rfl : mode = _ := h
    exact ⟨rfl, fun _ _ => le_rfl⟩

/-- **What `cspi_read` stores** on a connection, whatever the system answers. -/
theorem only_read (hc : l.heap p = some c) :
    Only (StoresIn dest (c.mode.written count.toNat)) (l.read tf (.con p) dest count) := by
  have hderef : l.deref p = Pure.pure c := by rw [Lib.deref, hc]
  rw [Lib.read, hderef, pure_bind]
  refine confined_bind.2 (confined_mono ((customGetdefaultop_of c.mode).confined
    (only_customGetdefaultop only_initop)) ?_)
  rintro ⟨op, l'⟩ ⟨hl, hop⟩
  have hderef' : l'.deref p = Pure.pure c := by rw [Lib.deref, hl.heap, hc]
  have hfits : ∀ o, op = some o → o.FitsIn (c.mode.written count.toNat) count.toNat :=
    fun o ho => (hop o ho).fits _
  simp only [Lib.readEx, Lib.isHcon, hderef', pure_bind]
  refine only_ite (only_pure _) (only_onFile fun f => ?_)
  cases hmode : c.mode with
  | sa => exact only_pure _
  | adc =>
    rw [hmode] at hfits
    exact only_readAdc (fun _ => ⟨rfl, le_rfl⟩) hfits
  | adcCw | adcSp | adcSpRot =>
    rw [hmode] at hfits
    exact only_readAdc (fun h => by rw [hmode] at h; cases h) hfits
  | average => exact only_readAvg rfl
  | dd =>
    rw [hmode] at hfits
    exact only_readDd rfl (Nat.le_max_right ..) hfits
  | pm | unknown =>
    rw [hmode] at hfits
    exact only_readDd rfl le_rfl hfits

/-- **What `cspi_get` stores**, one atom of slow acquisition. -/
theorem only_get {h : Handle} : Only (StoresIn dest (Mode.sa.written 1)) (l.get h dest) := by
  refine only_seq (only_isHcon trivial) fun r => ?_
  cases r with
  | none => exact only_pure _
  | some r =>
    refine only_ite (only_pure _) (only_onFile fun f => only_ite (only_pure _) ?_)
    refine only_seq (only_sys ⟨rfl, rfl, ?_⟩) fun r => ?_
    · decide
    · cases r <;> exact only_pure _

end LiberaDaq.Cspi
